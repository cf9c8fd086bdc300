import FontScaffold.Proofs.File.Chunks
import FontScaffold.Proofs.Insertion

set_option autoImplicit false

namespace FontScaffold

namespace Insertion

variable {cwd path block : Text} {accepts : LinePredicate} {tree later : Tree} {size : Int}
  {outcome : Outcome}

/-- The block goes in and the file is replaced, or nothing has changed. -/
theorem run_eq (steady : accepts.Steady)
    (done : run cwd path block accepts size tree = (outcome, later)) :
    (outcome.result = .ok true ∧ ∃ bytes text final, tree.read cwd path = .ok bytes ∧
        Utf8.decode bytes = .ok text ∧ Spliced accepts size.toNat block text final ∧
        Tree.Installed tree later cwd path final) ∨
      outcome.result ≠ .ok true ∧ later = tree := by
  unfold run at done
  cases found : tree.read cwd path with
  | error denial =>
      rw [found] at done
      cases done
      exact Or.inr ⟨nofun, rfl⟩
  | ok bytes =>
    cases created : tree.createTemporary cwd path with
    | error denial =>
        rw [found, created] at done
        cases done
        exact Or.inr ⟨nofun, rfl⟩
    | ok made =>
        obtain ⟨temporary, opened⟩ := made
        rw [found, created] at done
        have passed := passed_pass accepts block size.toNat (incoming bytes).1 opened
        simp only [passed.steady steady, Tree.erase_opened created] at done
        split at done
        · cases done
          exact Or.inr ⟨nofun, rfl⟩
        split at done
        · cases done
          exact Or.inr ⟨nofun, rfl⟩
        · cases done
          exact Or.inr ⟨nofun, rfl⟩
        · cases done
          exact Or.inr ⟨nofun, rfl⟩
        next inserted whole =>
        split at done
        · cases done
          exact Or.inr ⟨nofun, rfl⟩
        next installed =>
        cases done
        obtain ⟨text, decoded, lines⟩ := incoming_eq_iff.mp (Prod.ext rfl whole)
        obtain ⟨left, before, line, behind, cut, chooses, _, copied⟩ := passed.inserted inserted
        refine Or.inl ⟨rfl, bytes, text, _, rfl, decoded,
          ⟨opened, left, before, line, behind, lines ▸ cut, chooses, copied⟩, ?_⟩
        exact Tree.installed_of_install created installed

end Insertion

namespace File

open Edit

variable {settings : Settings} {before after : Workspace} {path block : Text}

theorem insertBlock_eq_ok {accepts : LinePredicate} {size : Int} {inserted : Bool}
    (done : insertBlock settings path block accepts size before = .ok inserted after) :
    ∃ outcome tree,
      Insertion.run settings.workingDirectory path block accepts size before.tree =
        (outcome, tree) ∧ outcome.result = .ok inserted ∧ after = { before with tree } := by
  unfold insertBlock at done
  rw [Edit.bind_eq_ok] at done
  obtain ⟨_, _, got, done⟩ := done
  obtain ⟨rfl, rfl⟩ := get_eq_ok.mp got
  cases ran : Insertion.run settings.workingDirectory path block accepts size before.tree with
  | mk outcome tree =>
      rw [ran] at done
      rw [Edit.bind_eq_ok] at done
      obtain ⟨_, middle, set, done⟩ := done
      cases set
      cases ended : outcome.result with
      | error fault =>
          rw [ended] at done
          cases done
      | ok there =>
          rw [ended] at done
          obtain ⟨rfl, rfl⟩ := pure_eq_ok.mp done
          exact ⟨outcome, tree, rfl, ended, rfl⟩

theorem insertBlock_eq_error {accepts : LinePredicate} {size : Int} {fault : Fault}
    (failed : insertBlock settings path block accepts size before = .error fault after) :
    ∃ outcome tree,
      Insertion.run settings.workingDirectory path block accepts size before.tree =
        (outcome, tree) ∧ outcome.result = .error fault ∧ after = { before with tree } := by
  unfold insertBlock at failed
  rw [Edit.bind_eq_error] at failed
  rcases failed with got | ⟨_, _, got, failed⟩
  · cases got
  obtain ⟨rfl, rfl⟩ := get_eq_ok.mp got
  cases ran : Insertion.run settings.workingDirectory path block accepts size before.tree with
  | mk outcome tree =>
      rw [ran] at failed
      rw [Edit.bind_eq_error] at failed
      rcases failed with set | ⟨_, middle, set, failed⟩
      · cases set
      cases set
      cases ended : outcome.result with
      | ok there =>
          rw [ended] at failed
          cases failed
      | error other =>
          rw [ended] at failed
          cases failed
          exact ⟨outcome, tree, rfl, ended, rfl⟩

theorem insertBlock_of_run {accepts : LinePredicate} {size : Int} {inserted : Bool} {tree : Tree}
    {asked : List Sighting}
    (ran : Insertion.run settings.workingDirectory path block accepts size before.tree =
      (⟨asked, .ok inserted⟩, tree)) :
    insertBlock settings path block accepts size before = .ok inserted { before with tree } := by
  unfold insertBlock
  rw [bind_of_ok (get_eq_ok.mpr ⟨rfl, rfl⟩), ran]
  rfl

theorem insertBlock_of_run_error {accepts : LinePredicate} {size : Int} {fault : Fault}
    {tree : Tree}
    {asked : List Sighting}
    (ran : Insertion.run settings.workingDirectory path block accepts size before.tree =
      (⟨asked, .error fault⟩, tree)) :
    insertBlock settings path block accepts size before = .error fault { before with tree } := by
  unfold insertBlock
  rw [bind_of_ok (get_eq_ok.mpr ⟨rfl, rfl⟩), ran]
  rfl

theorem insertBelowImports_of_run {inserted : Bool} {tree : Tree} {asked : List Sighting}
    (ran : Insertion.run settings.workingDirectory path block (.ofBool Sighting.endsImports) 1
      before.tree = (⟨asked, .ok inserted⟩, tree)) :
    ∃ after, insertBelowImports settings path block before = .ok inserted after := by
  unfold insertBelowImports
  rw [bind_of_ok (insertBlock_of_run ran)]
  cases inserted with
  | true => exact ⟨_, rfl⟩
  | false => exact ⟨_, rfl⟩

/-- The block has gone into the file before the first accepted line, or nothing has changed. -/
theorem allOrNothing_insertBlock {accepts : LinePredicate} (steady : accepts.Steady) (size : Int) :
    AllOrNothing settings path (fun inserted => inserted)
      (fun tree final => ∃ text, Holds settings tree path text ∧
        Insertion.Spliced accepts size.toNat block text final)
      (insertBlock settings path block accepts size) := by
  constructor
  · intro before fault after failed
    obtain ⟨outcome, tree, ran, ended, rfl⟩ := insertBlock_eq_error failed
    rcases Insertion.run_eq steady ran with ⟨inserted, _⟩ | ⟨_, same⟩
    · rw [inserted] at ended
      cases ended
    · exact ⟨same, rfl⟩
  · intro before inserted after done declined
    obtain ⟨outcome, tree, ran, ended, rfl⟩ := insertBlock_eq_ok done
    rcases Insertion.run_eq steady ran with ⟨there, _⟩ | ⟨_, same⟩
    · rw [ended, declined] at there
      cases there
    · exact ⟨same, rfl⟩
  · intro before inserted after done wrote
    obtain ⟨outcome, tree, ran, ended, rfl⟩ := insertBlock_eq_ok done
    rcases Insertion.run_eq steady ran with
      ⟨_, bytes, text, final, found, decoded, spliced, installed⟩ | ⟨notThere, _⟩
    · exact ⟨rfl, final, ⟨text, ⟨bytes, found, decoded⟩, spliced⟩, installed⟩
    · rw [ended, wrote] at notThere
      exact (notThere rfl).elim

theorem allOrNothing_insertBelowImports :
    AllOrNothing settings path (fun inserted => inserted)
      (fun tree final => ∃ text, Holds settings tree path text ∧
        Insertion.Spliced (.ofBool Sighting.endsImports) 1 block text final)
      (insertBelowImports settings path block) := by
  refine (allOrNothing_insertBlock (LinePredicate.steady_ofBool _) 1).followed ?_
  intro inserted before
  cases inserted with
  | true =>
      refine ⟨true, _, rfl, rfl, ?_⟩
      exact ⟨rfl, rfl⟩
  | false =>
      refine ⟨false, _, rfl, rfl, ?_⟩
      exact ⟨rfl, rfl⟩

/-- An edit that fails or does not write leaves the tree as it was. One that writes changes the
entry of its file only, which then holds the whole new text under its old mode. A predicate may
refuse to judge a line, windows may have any size, and a text that UTF-8 cannot encode is one that
fails. -/
theorem edits_all_or_nothing (settings : Settings) (path : Text) {accepts : LinePredicate}
    (steady : accepts.Steady) :
    (∀ text operation,
      AllOrNothing settings path (fun _ => true) (fun _ final => final = text)
        (File.write settings path text operation)) ∧
    (∀ matcher separator content,
      AllOrNothing settings path (fun changed => changed)
        (fun tree final => ∃ text, Holds settings tree path text ∧
          final = (merge matcher separator text content).content)
        (mergeChunks settings matcher separator path content)) ∧
    (∀ matcher separator probe,
      AllOrNothing settings path (fun changed => changed)
        (fun tree final => ∃ text, Holds settings tree path text ∧
          final = (prune matcher separator text probe).content)
        (pruneChunks settings matcher separator path probe)) ∧
    (∀ block size,
      AllOrNothing settings path (fun inserted => inserted)
        (fun tree final => ∃ text, Holds settings tree path text ∧
          Insertion.Spliced accepts size.toNat block text final)
        (insertBlock settings path block accepts size)) ∧
    (∀ block,
      AllOrNothing settings path (fun inserted => inserted)
        (fun tree final => ∃ text, Holds settings tree path text ∧
          Insertion.Spliced (.ofBool Sighting.endsImports) 1 block text final)
        (insertBelowImports settings path block)) :=
  ⟨fun text operation => allOrNothing_write text operation,
    fun matcher _ _ => allOrNothing_mergeChunks matcher,
    fun matcher _ _ => allOrNothing_pruneChunks matcher,
    fun _ size => allOrNothing_insertBlock steady size,
    fun _ => allOrNothing_insertBelowImports⟩

/-- A predicate that does not want to judge a second line. -/
def onlyFirstLine : LinePredicate where
  Memory := Unit
  start := ()
  judge sighting seen :=
    if sighting.number = 2 then .error (.misuse (.refused "second line".text)) seen
    else .ok false seen

def notes : Workspace where
  tree := ⟨[
    (["app".utf8, "notes.txt".utf8], .file "one\ntwo\n".utf8 0o640),
    (["app".utf8], .directory)]⟩
  config := { path := "lofo-config.json".text }
  log := []

theorem steady_onlyFirstLine : onlyFirstLine.Steady := by
  constructor <;>
  · intro sighting seen ended left judged
    simp only [onlyFirstLine] at judged
    split at judged <;> cases judged
    rfl

/-- Neither the predicate that gives up nor a text or block with a lone surrogate leaves a trace. -/
theorem refused_line_leaves_notes :
    let settings := Settings.ofEnvironment "/app".text []
    let broken := "new".text ++ [.lone 0x3d, .char '\n']
    onlyFirstLine.Steady ∧
      (∃ after, insertBlock settings "notes.txt".text "new\n".text onlyFirstLine 1 notes =
          .error (.misuse (.refused "second line".text)) after ∧ after.tree = notes.tree) ∧
      (∃ after, insertBlock settings "notes.txt".text broken (.ofBool fun _ => true) 1 notes =
          .error (.misuse (.unencodable ⟨3, [.lone 0x3d]⟩)) after ∧ after.tree = notes.tree) ∧
      ∃ after, File.write settings "notes.txt".text broken "write".text notes =
          .error (.misuse (.unencodable ⟨3, [.lone 0x3d]⟩)) after ∧ after.tree = notes.tree := by
  intro settings broken
  obtain ⟨write, _, _, insert, _⟩ :=
    edits_all_or_nothing settings "notes.txt".text steady_onlyFirstLine
  obtain ⟨_, _, _, insertFirst, _⟩ :=
    edits_all_or_nothing settings "notes.txt".text (LinePredicate.steady_ofBool fun _ => true)
  have refused :
      outcome (insertBlock settings "notes.txt".text "new\n".text onlyFirstLine 1) notes =
      .error (.misuse (.refused "second line".text)) := by decide +kernel
  have notInserted : outcome (insertBlock settings "notes.txt".text broken
      (.ofBool fun _ => true) 1) notes = .error (.misuse (.unencodable ⟨3, [.lone 0x3d]⟩)) := by
    decide +kernel
  have notWritten : outcome (File.write settings "notes.txt".text broken "write".text) notes =
      .error (.misuse (.unencodable ⟨3, [.lone 0x3d]⟩)) := by decide +kernel
  refine ⟨steady_onlyFirstLine, ?_, ?_, ?_⟩
  · obtain ⟨after, failed⟩ := outcome_eq_error.mp refused
    exact ⟨after, failed, ((insert _ 1).failed notes _ after failed).tree⟩
  · obtain ⟨after, failed⟩ := outcome_eq_error.mp notInserted
    exact ⟨after, failed, ((insertFirst _ 1).failed notes _ after failed).tree⟩
  · obtain ⟨after, failed⟩ := outcome_eq_error.mp notWritten
    exact ⟨after, failed, ((write _ _).failed notes _ after failed).tree⟩

end File

end FontScaffold
