import FontScaffold.Proofs.File.AllOrNothing
import FontScaffold.Proofs.Json.RoundTrip
import FontScaffold.Proofs.Json.Unpaired
import FontScaffold.Proofs.Text.Decode

set_option autoImplicit false

namespace FontScaffold.Config

open Edit File

variable {config : Config}

theorem fits_toJson (unpaired : ∀ name ∈ config.fonts, Json.Unpaired name) :
    Json.Fits Json.nestingLimit config.toJson := by
  have names : ∀ item ∈ config.fonts.map Json.Value.string, Json.Fits 987 item :=
    List.forall_mem_map.mpr fun name member => .string (unpaired name member)
  refine .object (fun member inside => ?_) fun member inside => ?_
  · rcases List.mem_pair.mp inside with rfl | rfl <;>
      exact Json.unpaired_of_wellFormed (Text.wellFormed_text _)
  · rcases List.mem_pair.mp inside with rfl | rfl
    · exact .array names
    · exact .bool config.isSetUp

theorem mapM_text (names : List Text) :
    (names.map Json.Value.string).mapM Json.Value.text? = some names := by
  induction names with
  | nil => rfl
  | cons name names ih =>
      rw [List.map_cons, List.mapM_cons, ih]
      rfl

theorem namesOf_array (names : List Text) :
    namesOf? (some (.array (names.map .string))) = some names := by
  cases names with
  | nil => rfl
  | cons name names =>
      have holds : Json.Value.holds (.array ((name :: names).map .string)) = true := rfl
      rw [namesOf?, Option.filter_some_pos holds]
      exact mapM_text (name :: names)

theorem ofContent_render (path : Text) (unpaired : ∀ name ∈ config.fonts, Json.Unpaired name) :
    ofContent path config.render = .ok { config with path } := by
  have visible : Text.isVisible config.render = true := rfl
  have parsed : Json.parse config.render = .ok config.toJson :=
    Json.parse_print (fits_toJson unpaired) (.indented 0) rfl
  have fonts : namesOf? (Json.Value.member? "fonts".text
      [("fonts".text, .array (config.fonts.map .string)),
        ("reachedSuccess".text, .bool config.isSetUp)]) = some config.fonts :=
    namesOf_array config.fonts
  rw [ofContent, if_pos visible, parsed]
  simp only [toJson, fonts]
  rfl

theorem unpaired_of_mapM_text {items : List Json.Value} {names : List Text}
    (each : ∀ item ∈ items, Json.Value.Unpaired item)
    (done : items.mapM Json.Value.text? = some names) : ∀ name ∈ names, Json.Unpaired name := by
  induction items generalizing names with
  | nil =>
      cases done
      exact List.forall_mem_nil _
  | cons item items ih =>
      rw [List.mapM_cons] at done
      simp only [Option.bind_eq_bind, Option.bind_eq_some_iff] at done
      obtain ⟨name, isText, others, rest, same⟩ := done
      cases same
      obtain ⟨first, later⟩ := List.forall_mem_cons.mp each
      refine List.forall_mem_cons.mpr ⟨?_, ih later rest⟩
      cases first with
      | string unpaired => exact Option.some.inj isText ▸ unpaired
      | _ => cases isText

/-- Names that were read can be written and read again. -/
theorem unpaired_of_ofContent {path content : Text} (wellFormed : Text.WellFormed content)
    (done : ofContent path content = .ok config) : ∀ name ∈ config.fonts, Json.Unpaired name := by
  have parsedUnpaired : ∀ read, (if Text.isVisible content then Json.parse content else
      .ok (.object [])) = Except.ok read → Json.Value.Unpaired read := by
    intro read parsed
    split at parsed
    · exact Json.unpaired_of_parse wellFormed parsed
    · cases parsed
      exact .object (List.forall_mem_nil _)
  unfold ofContent at done
  dsimp only at done
  split at done
  · cases done
  · cases done
  · next members parsed =>
    split at done
    · cases done
    next names known =>
    cases done
    unfold namesOf? at known
    split at known
    · cases known
      exact List.forall_mem_nil _
    · next items present =>
      have inside : Json.Value.Unpaired (.array items) := by
        cases parsedUnpaired _ parsed with
        | object each =>
        have found := (Option.filter_eq_some_iff.mp present).1
        obtain ⟨member, there, same⟩ := Option.map_eq_some_iff.mp found
        exact same ▸ each member (List.mem_reverse.mp (List.mem_of_find?_eq_some there))
      cases inside with
      | array each => exact unpaired_of_mapM_text each known
    · cases known
  · cases done

section Load

variable {settings : Settings} {before after : Workspace} {path : Text}

theorem ne_nil_of_pathExists {tree : Tree}
    (there : tree.pathExists settings.workingDirectory path) : path ≠ [] := by
  rintro rfl
  cases there

/-- Loading an existing file reads it and changes nothing. -/
theorem load_eq_ok (there : before.tree.pathExists settings.workingDirectory path) :
    load settings path before = .ok config after ↔
      ∃ content, Holds settings before.tree path content ∧ ofContent path content = .ok config ∧
        before = after := by
  rw [load, if_neg (ne_nil_of_pathExists there), Edit.bind_eq_ok]
  constructor
  · rintro ⟨_, _, got, done⟩
    obtain ⟨rfl, rfl⟩ := get_eq_ok.mp got
    rw [if_pos there, Edit.bind_eq_ok] at done
    obtain ⟨content, _, found, done⟩ := done
    obtain ⟨holds, rfl⟩ := read_eq_ok.mp found
    cases parsed : ofContent path content with
    | error fault =>
        simp only [parsed] at done
        cases done
    | ok loaded =>
        simp only [parsed] at done
        obtain ⟨rfl, same⟩ := pure_eq_ok.mp done
        exact ⟨content, holds, parsed, same⟩
  · rintro ⟨content, holds, parsed, rfl⟩
    refine ⟨before, before, get_eq_ok.mpr ⟨rfl, rfl⟩, ?_⟩
    rw [if_pos there, Edit.bind_eq_ok]
    refine ⟨content, before, read_eq_ok.mpr ⟨holds, rfl⟩, ?_⟩
    simp only [parsed]
    rfl

theorem unpaired_of_load (there : before.tree.pathExists settings.workingDirectory path)
    (loaded : load settings path before = .ok config after) :
    ∀ name ∈ config.fonts, Json.Unpaired name := by
  obtain ⟨content, ⟨bytes, _, decoded⟩, parsed, _⟩ := (load_eq_ok there).mp loaded
  exact unpaired_of_ofContent (Utf8.exists_encode_iff.mp ⟨bytes, Utf8.decode_eq_ok.mp decoded⟩)
    parsed

theorem load_of_holds {later : Workspace} {content : Text}
    (holds : Holds settings before.tree path content)
    (kept : Holds settings later.tree path content)
    (loaded : load settings path before = .ok config before) :
    load settings path later = .ok config later := by
  obtain ⟨found, foundHolds, parsed, _⟩ := (load_eq_ok holds.pathExists).mp loaded
  rw [foundHolds.unique holds] at parsed
  exact (load_eq_ok kept.pathExists).mpr ⟨content, kept, parsed, rfl⟩

theorem load_of_saved (unpaired : ∀ name ∈ config.fonts, Json.Unpaired name)
    (saved : Holds settings before.tree config.path config.render) :
    load settings config.path before = .ok config before :=
  (load_eq_ok saved.pathExists).mpr
    ⟨config.render, saved, ofContent_render config.path unpaired, rfl⟩

theorem confined_saveCurrent (settings : Settings) (before : Workspace) :
    Confined settings before.config.path before (leaves (saveCurrent settings) before) := by
  unfold saveCurrent
  rw [leaves, bind_of_ok (get_eq_ok.mpr ⟨rfl, rfl⟩)]
  exact (allOrNothing_write before.config.render "write config".text).confined before

theorem installed_of_saveCurrent {result : Unit}
    (done : saveCurrent settings before = .ok result after) :
    Tree.Installed before.tree after.tree settings.workingDirectory before.config.path
        before.config.render ∧ after.config = before.config := by
  unfold saveCurrent at done
  rw [Edit.bind_eq_ok] at done
  obtain ⟨_, _, got, done⟩ := done
  obtain ⟨rfl, rfl⟩ := get_eq_ok.mp got
  exact installed_of_write done

theorem load_of_saveCurrent {result : Unit}
    (unpaired : ∀ name ∈ before.config.fonts, Json.Unpaired name)
    (done : saveCurrent settings before = .ok result after) :
    load settings after.config.path after = .ok after.config after := by
  obtain ⟨installed, same⟩ := installed_of_saveCurrent done
  rw [same]
  exact load_of_saved unpaired (holds_of_installed installed)

/-- A config comes back from its file as it was saved: the families in their order and as often as
they were listed, whatever characters their names have. A surrogate alone comes back too. -/
theorem load_after_save {result : Unit} (unpaired : ∀ name ∈ config.fonts, Json.Unpaired name)
    (saved : save settings config before = .ok result after) :
    load settings config.path after = .ok config after := by
  have written := (installed_of_write saved).1
  exact load_of_saved unpaired (holds_of_installed written)

def awkward : Config where
  path := "settings/../fonts.json".text
  fonts := ["Inter", "", "\"Q\\", "Inter", "a\nb\x00\x7f", "é\u2028", "😀", "true"].map String.text
  isSetUp := true

def outdated : Workspace where
  tree := ⟨[
    (["app".utf8, "fonts.json".utf8], .file "not a config".utf8 0o640),
    (["app".utf8, "settings".utf8], .directory),
    (["app".utf8], .directory)]⟩
  config := { path := "lofo-config.json".text }
  log := []

theorem load_after_save_awkward :
    ∃ after, save (Settings.ofEnvironment "/app".text []) awkward outdated = .ok () after ∧
      load (Settings.ofEnvironment "/app".text []) awkward.path after = .ok awkward after := by
  have unpaired : ∀ name ∈ awkward.fonts, Json.Unpaired name := by decide +kernel
  have success : succeeds (save (Settings.ofEnvironment "/app".text []) awkward) outdated := by
    decide +kernel
  obtain ⟨_, after, saved⟩ := exists_of_succeeds success
  exact ⟨after, saved, load_after_save unpaired saved⟩

end Load

end FontScaffold.Config
