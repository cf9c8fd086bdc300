import FontScaffold.File
import FontScaffold.Proofs.Text.Utf8
import FontScaffold.Proofs.Tree.Replace

set_option autoImplicit false

namespace FontScaffold.File

open Edit

/-- The path leads to a file with the text. -/
def Holds (settings : Settings) (tree : Tree) (path text : Text) : Prop :=
  ∃ bytes, tree.read settings.workingDirectory path = .ok bytes ∧ Utf8.decode bytes = .ok text

/-- Of all entries only the one that the path names may have changed, and it was no directory. -/
def OnlyAt (settings : Settings) (path : Text) (tree later : Tree) : Prop :=
  later = tree ∨ ∃ bytes, Tree.Replaced tree later settings.workingDirectory path bytes

section Contents

variable {settings : Settings} {tree later : Tree} {path other text content : Text}

theorem Holds.unique (first : Holds settings tree path text)
    (second : Holds settings tree path content) : text = content := by
  obtain ⟨bytes, read, decoded⟩ := first
  obtain ⟨others, again, decodedAgain⟩ := second
  rw [read] at again
  cases again
  rw [decoded] at decodedAgain
  cases decodedAgain
  rfl

theorem Holds.pathExists (holds : Holds settings tree path text) :
    tree.pathExists settings.workingDirectory path := by
  obtain ⟨_, read, _⟩ := holds
  exact Tree.pathExists_of_locate (Tree.read_eq_ok.mp read).1

theorem OnlyAt.holds_other (only : OnlyAt settings path tree later)
    (holds : Holds settings tree other text)
    (different : Tree.target settings.workingDirectory other ≠
      Tree.target settings.workingDirectory path) : Holds settings later other text := by
  rcases only with rfl | ⟨_, done⟩
  · exact holds
  · obtain ⟨bytes, read, decoded⟩ := holds
    exact ⟨bytes, done.read_other read different, decoded⟩

theorem OnlyAt.trans {last : Tree} (first : OnlyAt settings path tree later)
    (second : OnlyAt settings path later last) : OnlyAt settings path tree last := by
  rcases second with rfl | ⟨bytes, replaced⟩
  · exact first
  · rcases first with rfl | ⟨_, earlier⟩
    · exact Or.inr ⟨bytes, replaced⟩
    · exact Or.inr ⟨bytes, earlier.trans replaced⟩

theorem holds_of_installed
    (done : Tree.Installed tree later settings.workingDirectory path text) :
    Holds settings later path text := by
  obtain ⟨bytes, encoded, replaced⟩ := done
  exact ⟨bytes, replaced.reads, Utf8.decode_of_encode encoded⟩

end Contents

section Access

variable {settings : Settings} {before after : Workspace} {path operation text : Text}

theorem read_eq_ok : File.read settings path operation before = .ok text after ↔
    Holds settings before.tree path text ∧ before = after := by
  unfold File.read
  rw [Edit.bind_eq_ok]
  constructor
  · rintro ⟨_, _, got, done⟩
    obtain ⟨rfl, rfl⟩ := get_eq_ok.mp got
    cases found : before.tree.read settings.workingDirectory path with
    | error denial =>
        rw [found] at done
        cases done
    | ok bytes =>
        rw [found] at done
        cases decoded : Utf8.decode bytes with
        | error fault =>
            simp only [decoded] at done
            cases done
        | ok content =>
            simp only [decoded] at done
            obtain ⟨rfl, rfl⟩ := pure_eq_ok.mp done
            exact ⟨⟨bytes, found, decoded⟩, rfl⟩
  · rintro ⟨⟨bytes, found, decoded⟩, rfl⟩
    refine ⟨before, before, get_eq_ok.mpr ⟨rfl, rfl⟩, ?_⟩
    rw [found]
    simp only [decoded]
    rfl

theorem quiet_of_read_error {fault : Fault}
    (failed : File.read settings path operation before = .error fault after) :
    Quiet before after := by
  unfold File.read at failed
  rw [Edit.bind_eq_error] at failed
  rcases failed with got | ⟨_, _, got, failed⟩
  · cases got
  obtain ⟨rfl, rfl⟩ := get_eq_ok.mp got
  cases found : before.tree.read settings.workingDirectory path with
  | error denial =>
      rw [found] at failed
      cases failed
      exact Quiet.refl _
  | ok bytes =>
      rw [found] at failed
      cases decoded : Utf8.decode bytes with
      | error undecodable =>
          simp only [decoded] at failed
          cases failed
          exact Quiet.refl _
      | ok text =>
          simp only [decoded] at failed
          cases failed

theorem installed_of_write {result : Unit}
    (done : File.write settings path text operation before = .ok result after) :
    Tree.Installed before.tree after.tree settings.workingDirectory path text ∧
      after.config = before.config := by
  unfold File.write at done
  rw [Edit.bind_eq_ok] at done
  obtain ⟨_, _, got, done⟩ := done
  obtain ⟨rfl, rfl⟩ := get_eq_ok.mp got
  cases replaced : before.tree.replaceFile settings.workingDirectory path text with
  | mk tree refused =>
      rw [replaced] at done
      rw [Edit.bind_eq_ok] at done
      obtain ⟨_, middle, set, done⟩ := done
      cases set
      cases refused with
      | some denial => cases done
      | none =>
          obtain ⟨treeSame, configSame⟩ := quiet_debug done
          rw [treeSame, configSame]
          exact ⟨Tree.installed_of_replaceFile replaced, rfl⟩

/-- A write that fails changes nothing, and never misses a place for an import. -/
theorem quiet_of_write_error {fault : Fault}
    (failed : File.write settings path text operation before = .error fault after) :
    Quiet before after ∧ ∀ other pattern, fault ≠ .noInsertionPoint other pattern := by
  unfold File.write at failed
  rw [Edit.bind_eq_error] at failed
  rcases failed with got | ⟨_, _, got, failed⟩
  · cases got
  obtain ⟨rfl, rfl⟩ := get_eq_ok.mp got
  cases replaced : before.tree.replaceFile settings.workingDirectory path text with
  | mk tree refused =>
      rw [replaced] at failed
      rw [Edit.bind_eq_error] at failed
      rcases failed with set | ⟨_, middle, set, failed⟩
      · cases set
      cases set
      cases refused with
      | none => cases failed
      | some denial =>
          cases failed
          refine ⟨⟨Tree.eq_of_replaceFile replaced, rfl⟩, ?_⟩
          intro other pattern same
          cases denial <;> cases same

/-- A write that is told of afterwards. -/
theorem installed_of_write_info {content message : Text} {result : Bool}
    (done : (do
      File.write settings path content operation
      info message
      return true : Edit Bool) before = .ok result after) :
    Tree.Installed before.tree after.tree settings.workingDirectory path content ∧
      after.config = before.config := by
  rw [Edit.bind_eq_ok] at done
  obtain ⟨_, middle, written, done⟩ := done
  rw [Edit.bind_eq_ok] at done
  obtain ⟨_, told, informed, done⟩ := done
  obtain ⟨_, rfl⟩ := pure_eq_ok.mp done
  obtain ⟨installed, config⟩ := installed_of_write written
  have silent := quiet_info informed
  rw [silent.tree, silent.config]
  exact ⟨installed, config⟩

end Access

end FontScaffold.File
