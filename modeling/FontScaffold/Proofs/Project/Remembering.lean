import FontScaffold.Proofs.Project.Calls

set_option autoImplicit false

namespace FontScaffold.Project

open Edit File Index

section Adding

variable {settings : Settings} {directory layout indexFile : Text} {families : List Family}
  {naming : Layout.Naming} {strict : Bool} {before after : Workspace}

theorem mem_fonts_withFamilies {family : Family} (member : family ∈ families) (imported : Bool)
    (config : Config) : family.name ∈ (withFamilies families imported config).fonts := by
  rw [fonts_withFamilies, List.mem_eraseDups]
  exact List.mem_append_right config.fonts (List.mem_map_of_mem member)

theorem config_of_saveCurrent_error {fault : Fault}
    (failed : Config.saveCurrent settings before = .error fault after) :
    after.config = before.config ∧ ∀ path pattern, fault ≠ .noInsertionPoint path pattern := by
  unfold Config.saveCurrent at failed
  rcases Edit.bind_eq_error.mp failed with ungot | ⟨_, _, got, failed⟩
  · cases ungot
  obtain ⟨rfl, rfl⟩ := get_eq_ok.mp got
  obtain ⟨silent, placed⟩ := quiet_of_write_error failed
  exact ⟨silent.config, placed⟩

/-- A call that ends well has recorded its families in the config and written that to its file, from
where it comes back, unless two surrogates in a name make up a pair. One that ends for want of a
place for the import has left both as they were. After any other fault the config in memory is the
old one or lists the families. -/
theorem recorded_at_every_end
    (apart : Tree.target settings.workingDirectory before.config.path ≠
      Tree.target settings.workingDirectory (Path.join directory indexFile)) :
    (∀ imported after,
      addFamilies settings directory families layout indexFile naming strict before =
        .ok imported after →
      (∀ family ∈ families, family.name ∈ after.config.fonts) ∧
        Holds settings after.tree after.config.path after.config.render ∧
        ((∀ name ∈ after.config.fonts, Json.Unpaired name) →
          Config.load settings after.config.path after = .ok after.config after)) ∧
    (∀ path pattern after,
      addFamilies settings directory families layout indexFile naming strict before =
        .error (.noInsertionPoint path pattern) after →
      after.config = before.config ∧
        ∀ text, Holds settings before.tree before.config.path text →
          Holds settings after.tree before.config.path text) ∧
    (∀ fault after,
      addFamilies settings directory families layout indexFile naming strict before =
        .error fault after →
      after.config = before.config ∨ ∀ family ∈ families, family.name ∈ after.config.fonts) := by
  refine ⟨?_, ?_, ?_⟩
  · intro imported after done
    obtain ⟨_, _, _, listed, _, _, _, saving⟩ := addFamilies_eq_ok done
    obtain ⟨installed, same⟩ := Config.installed_of_saveCurrent saving
    refine ⟨fun family member => ?_, ?_, fun unpaired => Config.load_of_saveCurrent ?_ saving⟩
    · rw [same]
      exact mem_fonts_withFamilies member imported listed.config
    · rw [same]
      exact holds_of_installed installed
    · rwa [same] at unpaired
  · intro path pattern after failed
    rcases addFamilies_eq_error failed with spared | ⟨_, _, _, _, _, unsaved⟩
    · exact ⟨spared.config, fun text holds => spared.files _ text apart holds⟩
    · exact ((config_of_saveCurrent_error unsaved).2 path pattern rfl).elim
  · intro fault after failed
    rcases addFamilies_eq_error failed with spared | ⟨imported, _, listed, _, _, unsaved⟩
    · exact Or.inl spared.config
    · rw [(config_of_saveCurrent_error unsaved).1]
      exact Or.inr fun family member => mem_fonts_withFamilies member imported listed.config

def importless : Workspace where
  tree := ⟨[
    (["app".utf8, "layout.tsx".utf8],
      .file "export default 1\n".utf8 0o644),
    (["app".utf8], .directory)]⟩
  config := { path := "lofo-config.json".text }
  log := []

theorem importless_recorded :
    ∃ imported after,
      addFamilies (Settings.ofEnvironment "/app".text []) "fonts".text [inter]
        "layout.tsx".text "index.ts".text ⟨none, none⟩ false importless = .ok imported after ∧
      inter.name ∈ after.config.fonts ∧
      Config.load (Settings.ofEnvironment "/app".text []) after.config.path after =
        .ok after.config after := by
  let added := addFamilies (Settings.ofEnvironment "/app".text []) "fonts".text [inter]
    "layout.tsx".text "index.ts".text ⟨none, none⟩ false
  have success : succeeds added importless := by decide +kernel
  have unpaired : ∀ name ∈ (leaves added importless).config.fonts, Json.Unpaired name := by
    decide +kernel
  obtain ⟨imported, after, done⟩ := exists_of_succeeds success
  rw [leaves_of_ok done] at unpaired
  obtain ⟨listed, -, loaded⟩ := (recorded_at_every_end (by decide +kernel)).1 imported after done
  exact ⟨imported, after, done, listed inter (List.mem_singleton_self inter), loaded unpaired⟩

/-- A strict caller finds the export in the index, and the config without the family. -/
theorem importless_not_recorded :
    let added := addFamilies (Settings.ofEnvironment "/app".text []) "fonts".text [inter]
      "layout.tsx".text "index.ts".text ⟨none, none⟩ true
    ∃ path pattern after, added importless = .error (.noInsertionPoint path pattern) after ∧
      (∃ text, Holds (Settings.ofEnvironment "/app".text []) after.tree
        "fonts/index.ts".text text ∧ Text.occursIn (exportProbe inter.name) text) ∧
      inter.name ∉ after.config.fonts := by
  intro added
  have ended : (match added importless with
      | .error (.noInsertionPoint _ _) after =>
          decide (inter.name ∉ after.config.fonts) &&
            match after.tree.read "/app".text "fonts/index.ts".text with
            | .ok bytes => (Utf8.decode bytes).toOption.any (Text.occursIn (exportProbe inter.name))
            | .error _ => false
      | _ => false) = true := by decide +kernel
  split at ended
  · next path pattern after failed =>
      rw [Bool.and_eq_true, decide_eq_true_iff] at ended
      obtain ⟨unlisted, written⟩ := ended
      refine ⟨path, pattern, after, failed, ?_, unlisted⟩
      split at written
      · next bytes found =>
          cases decoded : Utf8.decode bytes with
          | ok text =>
              rw [decoded] at written
              exact ⟨text, ⟨bytes, found, decoded⟩, written⟩
          | error fault =>
              rw [decoded] at written
              cases written
      · cases written
  · cases ended

end Adding

section Removing

variable {settings : Settings} {index name : Text} {before after : Workspace} {removed : Bool}

/-- Nothing is lost by taking a family out if it is not listed and no name is listed twice. -/
theorem withoutFamily_eq_self_iff {config : Config} :
    withoutFamily name config = config ↔ name ∉ config.fonts ∧ config.fonts.Nodup := by
  constructor
  · intro same
    have fonts : (config.fonts.filter (· ≠ name)).eraseDups = config.fonts :=
      congrArg Config.fonts same
    constructor
    · intro listed
      rw [← fonts, List.mem_eraseDups, List.mem_filter] at listed
      exact of_decide_eq_true listed.2 rfl
    · rw [← fonts]
      exact FirstOccurrences.nodup_eraseDups _
  · rintro ⟨absent, distinct⟩
    have same : config.fonts.filter (· ≠ name) = config.fonts := by
      rw [List.filter_eq_self]
      intro other member
      exact decide_eq_true fun same => absent (same ▸ member)
    rw [withoutFamily, Config.changeFonts, same, FirstOccurrences.eraseDups_of_nodup distinct]

theorem config_of_removeFamily
    (done : removeFamily settings index name before = .ok removed after) :
    after.config = withoutFamily name before.config := by
  obtain ⟨_, _, _, _, _, _, _, ⟨_, saving⟩ | ⟨_, rfl⟩⟩ := removeFamily_eq_ok done
  · exact (Config.installed_of_saveCurrent saving).2
  · rfl

theorem unpaired_withoutFamily {config : Config}
    (unpaired : ∀ other ∈ config.fonts, Json.Unpaired other) :
    ∀ other ∈ (withoutFamily name config).fonts, Json.Unpaired other := by
  intro other member
  have kept : other ∈ (config.fonts.filter (· ≠ name)).eraseDups := member
  rw [List.mem_eraseDups, List.mem_filter] at kept
  exact unpaired other kept.1

theorem load_of_removeFamily_setUp (isSetUp : before.config.isSetUp)
    (unpaired : ∀ other ∈ before.config.fonts, Json.Unpaired other)
    (done : removeFamily settings index name before = .ok removed after) :
    Config.load settings after.config.path after = .ok after.config after := by
  obtain ⟨_, _, _, _, _, _, _, ⟨_, saving⟩ | ⟨unset, _⟩⟩ := removeFamily_eq_ok done
  · exact Config.load_of_saveCurrent (unpaired_withoutFamily unpaired) saving
  · rw [isSetUp] at unset
    cases unset

theorem onlyAt_of_removeFamily_unset (unset : before.config.isSetUp = false)
    (done : removeFamily settings index name before = .ok removed after) :
    OnlyAt settings index before.tree after.tree := by
  obtain ⟨told, pruned, changed, merged, silent, pruning, merging, ⟨isSetUp, _⟩ | ⟨_, rfl⟩⟩ :=
    removeFamily_eq_ok done
  · rw [isSetUp] at unset
    cases unset
  · have first := (allOrNothing_pruneChunks Matcher.standard).confined_of_ok pruning
    have second := (allOrNothing_mergeChunks Matcher.standard).confined_of_ok merging
    have only := (first.trans second).only
    rwa [silent.tree] at only

theorem load_of_removeFamily_unset (unset : before.config.isSetUp = false)
    (apart : Tree.target settings.workingDirectory before.config.path ≠
      Tree.target settings.workingDirectory index)
    (there : before.tree.pathExists settings.workingDirectory before.config.path)
    (loaded : Config.load settings before.config.path before = .ok before.config before)
    (done : removeFamily settings index name before = .ok removed after) :
    Config.load settings after.config.path after = .ok before.config after := by
  obtain ⟨content, holds, _⟩ := (Config.load_eq_ok there).mp loaded
  have kept := (onlyAt_of_removeFamily_unset unset done).holds_other holds apart
  rw [config_of_removeFamily done]
  exact Config.load_of_holds holds kept loaded

/-- When the config in memory is the one in its file and a family is taken out, they agree
afterwards exactly if the project is set up, or there was nothing to take out. -/
theorem load_after_removal_iff
    (apart : before.config.isSetUp = false →
      Tree.target settings.workingDirectory before.config.path ≠
        Tree.target settings.workingDirectory index)
    (there : before.tree.pathExists settings.workingDirectory before.config.path)
    (loaded : Config.load settings before.config.path before = .ok before.config before)
    (done : removeFamily settings index name before = .ok removed after) :
    Config.load settings after.config.path after = .ok after.config after ↔
      before.config.isSetUp ∨ name ∉ before.config.fonts ∧ before.config.fonts.Nodup := by
  cases isSetUp : before.config.isSetUp with
  | true =>
      have unpaired := Config.unpaired_of_load there loaded
      exact iff_of_true (load_of_removeFamily_setUp isSetUp unpaired done) (Or.inl rfl)
  | false =>
      have stale := load_of_removeFamily_unset isSetUp (apart isSetUp) there loaded done
      rw [stale, EStateM.Result.ok.injEq, config_of_removeFamily done, eq_comm,
        withoutFamily_eq_self_iff]
      simp

/-- What the config file holds as long as one family is listed and the project is not set up. -/
def unfinishedConfig : String :=
  "\x7b\n  \"fonts\": [\n    \"inter\"\n  ],\n  \"reachedSuccess\": false\n\x7d\n"

/-- A project whose layout had no place for the import: its family is in the index and in the
config, but it does not count as set up. -/
def unfinished : Workspace where
  tree := ⟨[
    (["app".utf8, "lofo-config.json".utf8],
      .file unfinishedConfig.utf8 0o600),
    (["app".utf8, "index.ts".utf8],
      .file "export const inter = localfont()\n\nexport default \x7b inter \x7d\n".utf8
        0o600),
    (["app".utf8], .directory)]⟩
  config := { path := "lofo-config.json".text, fonts := ["inter".text] }
  log := []

theorem load_unfinished :
    Config.load (Settings.ofEnvironment "/app".text []) unfinished.config.path unfinished =
      .ok unfinished.config unfinished := by
  have text : unfinished.config.render = unfinishedConfig.text := by decide +kernel
  refine Config.load_of_saved (by decide) ⟨unfinishedConfig.utf8, by decide +kernel, ?_⟩
  rw [text]
  exact Utf8.decode_of_encode (Utf8.encode_text _)

theorem unlisted_removal_agrees :
    ∃ removed after,
      removeFamily (Settings.ofEnvironment "/app".text []) "index.ts".text "roboto".text
        unfinished = .ok removed after ∧
      Config.load (Settings.ofEnvironment "/app".text []) after.config.path after =
        .ok after.config after := by
  have success : succeeds (removeFamily (Settings.ofEnvironment "/app".text [])
      "index.ts".text "roboto".text) unfinished := by decide +kernel
  obtain ⟨removed, after, done⟩ := exists_of_succeeds success
  exact ⟨removed, after, done, (load_after_removal_iff (fun _ => by decide +kernel)
    (by decide +kernel) load_unfinished done).mpr (Or.inr ⟨by decide, by decide⟩)⟩

/-- A family that was taken out is still listed in the config file. -/
theorem listed_removal_disagrees :
    ∃ removed after,
      removeFamily (Settings.ofEnvironment "/app".text []) "index.ts".text "inter".text
        unfinished = .ok removed after ∧
      Config.load (Settings.ofEnvironment "/app".text []) unfinished.config.path unfinished =
        .ok unfinished.config unfinished ∧
      "inter".text ∉ after.config.fonts ∧
      ∃ loaded, Config.load (Settings.ofEnvironment "/app".text []) after.config.path after =
        .ok loaded after ∧ "inter".text ∈ loaded.fonts := by
  have success : succeeds (removeFamily (Settings.ofEnvironment "/app".text [])
      "index.ts".text "inter".text) unfinished := by decide +kernel
  obtain ⟨removed, after, done⟩ := exists_of_succeeds success
  refine ⟨removed, after, done, load_unfinished, ?_, unfinished.config, ?_,
    List.mem_singleton_self _⟩
  · rw [config_of_removeFamily done]
    decide
  · exact load_of_removeFamily_unset rfl (by decide +kernel) (by decide +kernel)
      load_unfinished done

end Removing

end FontScaffold.Project
