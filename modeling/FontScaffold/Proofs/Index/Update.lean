import FontScaffold.Proofs.File.Chunks
import FontScaffold.Proofs.Index.Stable

set_option autoImplicit false

namespace FontScaffold.Index

open Chunk Edit File Merge

variable {settings : Settings} {path directory : Text} {families : List Family}
  {before after : Workspace}

/-- The index is there already, or it holds the skeleton now. -/
theorem ensure_eq_ok {created : Bool}
    (done : ensure settings path none before = .ok created after) :
    after.config = before.config ∧
      (before.tree.pathExists settings.workingDirectory path ∧ after = before ∨
        before.tree.pathExists settings.workingDirectory path = false ∧
          Holds settings after.tree path (skeleton settings)) := by
  unfold ensure at done
  rw [Edit.bind_eq_ok] at done
  obtain ⟨_, _, got, done⟩ := done
  obtain ⟨rfl, rfl⟩ := get_eq_ok.mp got
  by_cases there : before.tree.pathExists settings.workingDirectory path
  · rw [if_pos there] at done
    obtain ⟨_, rfl⟩ := pure_eq_ok.mp done
    exact ⟨rfl, Or.inl ⟨there, rfl⟩⟩
  rw [if_neg there] at done
  rw [Bool.not_eq_true] at there
  by_cases below : Path.directory path ≠ []
  · rw [if_pos below] at done
    cases made : before.tree.makeDirectories settings.workingDirectory (Path.directory path) with
    | mk tree refused =>
        rw [made] at done
        rw [Edit.bind_eq_ok] at done
        obtain ⟨_, middle, set, done⟩ := done
        cases set
        cases refused with
        | some denial => cases done
        | none =>
            obtain ⟨replaced, config⟩ := installed_of_write_info done
            exact ⟨config, Or.inr ⟨there, holds_of_installed replaced⟩⟩
  · rw [if_neg below] at done
    obtain ⟨replaced, config⟩ := installed_of_write_info done
    exact ⟨config, Or.inr ⟨there, holds_of_installed replaced⟩⟩

theorem ensure_of_pathExists (there : before.tree.pathExists settings.workingDirectory path)
    (content : Option Text) : ensure settings path content before = .ok false before := by
  unfold ensure
  rw [Edit.bind_eq_ok]
  refine ⟨before, before, get_eq_ok.mpr ⟨rfl, rfl⟩, ?_⟩
  rw [if_pos there]
  rfl

theorem render_eq_ok {config : Config} {parts : Parts}
    (done : render settings directory config families = .ok parts) :
    ∃ named,
      List.Forall₂
        (fun family text => namedExport settings.workingDirectory directory family = .ok text)
        families named ∧
      parts.namedExports = [.char '\n'].intercalate named ∧
      parts.defaultExport = defaultExport (config.fonts ++ families.map Family.name) := by
  unfold render at done
  rw [bind_eq_ok] at done
  obtain ⟨named, each, done⟩ := done
  cases done
  exact ⟨named, forall₂_of_mapM each, rfl, rfl⟩

def withNamed (settings : Settings) (parts : Parts) (text : Text) : Text :=
  if parts.namedExports = [] then text
  else (FontScaffold.merge Matcher.standard settings.declarationSeparator text
    parts.namedExports).content

/-- What bringing the index up to date does to its text. -/
def updatedText (settings : Settings) (parts : Parts) (text : Text) : Text :=
  (FontScaffold.merge Matcher.standard settings.declarationSeparator
    (withNamed settings parts text) parts.defaultExport).content

theorem rewritten_merge {part : Text} {changed : Bool}
    (done : Index.merge settings path part before = .ok changed after) :
    ∃ text, Rewritten settings before after path text
      (FontScaffold.merge Matcher.standard settings.declarationSeparator text part).content :=
  rewritten_mergeChunks done

theorem update_eq_ok {changed : Bool}
    (done : update settings path families directory before = .ok changed after) :
    ∃ parts ensured created text,
      render settings directory before.config families = .ok parts ∧
      ensure settings path none before = .ok created ensured ∧
      Rewritten settings ensured after path text (updatedText settings parts text) := by
  unfold update at done
  rw [Edit.bind_eq_ok] at done
  obtain ⟨_, _, got, done⟩ := done
  obtain ⟨rfl, rfl⟩ := get_eq_ok.mp got
  rw [Edit.bind_eq_ok] at done
  obtain ⟨parts, _, given, done⟩ := done
  obtain ⟨rendered, rfl⟩ := ofExcept_eq_ok.mp given
  rw [Edit.bind_eq_ok] at done
  obtain ⟨created, ensured, ensuredEq, done⟩ := done
  refine ⟨parts, ensured, created, ?_⟩
  rw [ite_bind, Edit.bind_eq_ok] at done
  obtain ⟨named, middle, namedEq, done⟩ := done
  rw [Edit.bind_eq_ok] at done
  obtain ⟨listed, _, listedEq, done⟩ := done
  obtain ⟨_, rfl⟩ := pure_eq_ok.mp done
  obtain ⟨content, listedDone⟩ := rewritten_merge listedEq
  by_cases none : parts.namedExports = []
  · rw [if_pos none] at namedEq
    obtain ⟨_, rfl⟩ := pure_eq_ok.mp namedEq
    refine ⟨content, rendered, ensuredEq, ?_⟩
    rwa [updatedText, withNamed, if_pos none]
  · rw [if_neg none] at namedEq
    obtain ⟨text, namedDone⟩ := rewritten_merge namedEq
    refine ⟨text, rendered, ensuredEq, ?_⟩
    rw [← namedDone.last.unique listedDone.first] at listedDone
    unfold updatedText
    rw [withNamed, if_neg none]
    exact namedDone.trans listedDone

/-- An index that both merges leave alone stays as it is. -/
theorem update_of_stable {parts : Parts} {text : Text}
    (rendered : render settings directory before.config families = .ok parts)
    (holds : Holds settings before.tree path text)
    (named : withNamed settings parts text = text)
    (listed : (FontScaffold.merge Matcher.standard settings.declarationSeparator text
      parts.defaultExport).content = text) :
    ∃ after, update settings path families directory before = .ok false after ∧
      after.tree = before.tree ∧ after.config = before.config := by
  obtain ⟨middle, namedEq, middleTree, middleConfig⟩ : ∃ middle,
      (if parts.namedExports = [] then pure false
        else Index.merge settings path parts.namedExports : Edit Bool) before =
          .ok false middle ∧
        middle.tree = before.tree ∧ middle.config = before.config := by
    by_cases none : parts.namedExports = []
    · rw [if_pos none]
      exact ⟨before, rfl, rfl, rfl⟩
    · rw [if_neg none]
      unfold withNamed at named
      rw [if_neg none] at named
      exact mergeChunks_of_content_eq holds named
  have still : Holds settings middle.tree path text := by rwa [middleTree]
  obtain ⟨after, listedEq, afterTree, afterConfig⟩ := mergeChunks_of_content_eq still listed
  refine ⟨after, ?_, afterTree.trans middleTree, afterConfig.trans middleConfig⟩
  unfold update
  rw [Edit.bind_eq_ok]
  refine ⟨before, before, get_eq_ok.mpr ⟨rfl, rfl⟩, ?_⟩
  rw [Edit.bind_eq_ok]
  refine ⟨parts, before, ofExcept_eq_ok.mpr ⟨rendered, rfl⟩, ?_⟩
  rw [Edit.bind_eq_ok]
  refine ⟨false, before, ensure_of_pathExists holds.pathExists none, ?_⟩
  rw [ite_bind, Edit.bind_eq_ok]
  refine ⟨false, middle, namedEq, ?_⟩
  rw [Edit.bind_eq_ok]
  exact ⟨false, after, listedEq, rfl⟩

theorem namedExports_ne_nil {named : List Text}
    (each : List.Forall₂
      (fun family text => namedExport settings.workingDirectory directory family = .ok text)
      families named)
    (some : [.char '\n'].intercalate named ≠ []) : families ≠ [] := by
  intro same
  subst same
  cases each
  exact some rfl

/-- Brought up to date once more with the same families, the index stays as it is: nothing is
written, and no change is reported. -/
theorem update_again {changed : Bool} (separated : settings.declarationSeparator = "\n\n".text)
    (names : ∀ family ∈ families, IsName family.name)
    (distinct : (families.map Family.name).Nodup)
    (remembered : ∀ name ∈ before.config.fonts, isIdentifier name)
    (done : update settings path families directory before = .ok changed after) :
    ∃ final, update settings path families directory after = .ok false final ∧
      final.tree = after.tree ∧ final.config = after.config := by
  obtain ⟨parts, ensured, created, text, rendered, ensuredEq, written⟩ := update_eq_ok done
  obtain ⟨named, each, namedEq, listedEq⟩ := render_eq_ok rendered
  have config : after.config = before.config :=
    written.config.trans (ensure_eq_ok ensuredEq).1
  have separated : settings.declarationSeparator = blankLine := separated
  have identifiers : ∀ name ∈ before.config.fonts ++ families.map Family.name,
      isIdentifier name := by
    intro name member
    rcases List.mem_append.mp member with old | fresh
    · exact remembered name old
    · obtain ⟨family, inside, rfl⟩ := List.mem_map.mp fresh
      exact (names family inside).identifier
  rw [← config] at rendered
  apply update_of_stable rendered written.last
  · unfold updatedText
    rw [withNamed, withNamed, separated, listedEq]
    split
    · rfl
    · next some =>
        rw [namedEq] at some ⊢
        exact content_merge_namedExports
          (split_namedExports each (fun family member => (names family member).identifier)
            (namedExports_ne_nil each some))
          names distinct identifiers text
  · unfold updatedText
    rw [separated, listedEq]
    exact content_merge_again blankLine_ne_nil (unlike_defaultExport identifiers)
      (apart_defaultExport identifiers)

def handEdited : Workspace where
  tree := ⟨[
    (["app".utf8, "fonts".utf8, "index.ts".utf8],
      .file "export const =\n\n// mine\n\nexport const = = =\n".utf8 0o644),
    (["app".utf8, "fonts".utf8], .directory),
    (["app".utf8], .directory)]⟩
  config := { path := "lofo-config.json".text, fonts := ["roboto".text] }
  log := []

def inter : Family where
  name := "inter".text
  fonts := [Font.ofPath "/app/public/Inter-Bold.ttf".text]

theorem hand_edited_index_stays :
    let writes := update (Settings.ofEnvironment "/app".text []) "fonts/index.ts".text [inter]
      "fonts".text
    ∃ changed after final, writes handEdited = .ok changed after ∧
      writes after = .ok false final ∧ final.tree = after.tree := by
  have isName : IsName inter.name := ⟨by decide, by decide, by decide⟩
  have success : succeeds (update (Settings.ofEnvironment "/app".text [])
      "fonts/index.ts".text [inter] "fonts".text) handEdited := by decide +kernel
  obtain ⟨changed, after, done⟩ := exists_of_succeeds success
  have names : ∀ family ∈ [inter], IsName family.name := by
    intro family member
    rwa [List.mem_singleton.mp member]
  have distinct : ([inter].map Family.name).Nodup := List.nodup_singleton _
  obtain ⟨final, again, tree, _⟩ := update_again rfl names distinct (by decide) done
  exact ⟨changed, after, final, done, again, tree⟩

end FontScaffold.Index
