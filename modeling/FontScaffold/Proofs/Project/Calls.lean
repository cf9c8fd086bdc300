import FontScaffold.Proofs.Config.Saved
import FontScaffold.Proofs.Index.Sparing
import FontScaffold.Proofs.Layout.Update

set_option autoImplicit false

namespace FontScaffold.Project

open Edit File Index

variable {settings : Settings} {directory layout indexFile index name : Text}
  {families : List Family} {naming : Layout.Naming} {strict : Bool} {before after : Workspace}

theorem quiet_tellAlias {result : Unit} (done : tellAlias naming before = .ok result after) :
    Quiet before after := by
  unfold tellAlias at done
  cases given : Layout.given naming.aliasName with
  | some aliasName =>
      rw [given] at done
      exact quiet_info done
  | none =>
      rw [given] at done
      obtain ⟨_, rfl⟩ := pure_eq_ok.mp done
      exact Quiet.refl before

/-- The config once families are added, with the import in place or not. -/
def withFamilies (families : List Family) (imported : Bool) (config : Config) : Config :=
  let listed := config.changeFonts (· ++ families.map Family.name)
  if imported then listed.markSetUp else listed

theorem fonts_withFamilies (families : List Family) (imported : Bool) (config : Config) :
    (withFamilies families imported config).fonts =
      (config.fonts ++ families.map Family.name).eraseDups := by
  cases imported <;> rfl

theorem path_withFamilies (families : List Family) (imported : Bool) (config : Config) :
    (withFamilies families imported config).path = config.path := by
  cases imported <;> rfl

theorem isSetUp_withFamilies (families : List Family) (imported : Bool) (config : Config) :
    (withFamilies families imported config).isSetUp = (imported || config.isSetUp) := by
  cases imported <;> rfl

/-- The config once a family is taken out. -/
def withoutFamily (name : Text) (config : Config) : Config :=
  config.changeFonts fun fonts => fonts.filter (· ≠ name)

/-- The import has been added to the layout, with nothing but words before and after. -/
def Imports (settings : Settings) (directory layout : Text) (naming : Layout.Naming)
    (strict imported : Bool) (before after : Workspace) : Prop :=
  ∃ exportName importing inLayout,
    Quiet before importing ∧
    Layout.addImport settings layout directory exportName naming strict importing =
      .ok imported inLayout ∧
    Quiet inLayout after

theorem Imports.confined {imported : Bool}
    (imports : Imports settings directory layout naming strict imported before after) :
    Confined settings layout before after := by
  obtain ⟨_, _, _, early, added, late⟩ := imports
  exact (Confined.of_quiet early).trans
    ((Layout.confined_of_addImport added).trans (.of_quiet late))

/-- Families have been added: their exports are in the index, the layout has been edited or not, and
the config that lists them is saved. -/
theorem addFamilies_eq_ok {imported : Bool}
    (done : addFamilies settings directory families layout indexFile naming strict before =
      .ok imported after) :
    ∃ told changed updated listed,
      Quiet before told ∧
      Index.update settings (Path.join directory indexFile) families directory told =
        .ok changed updated ∧
      Imports settings directory layout naming strict imported updated listed ∧
      Config.saveCurrent settings
        { listed with config := withFamilies families imported listed.config } = .ok () after := by
  unfold addFamilies at done
  rw [Edit.bind_eq_ok] at done
  obtain ⟨_, start, toldAlias, done⟩ := done
  rw [Edit.bind_eq_ok] at done
  obtain ⟨_, told, informed, done⟩ := done
  rw [Edit.bind_eq_ok] at done
  obtain ⟨changed, updated, updatedEq, done⟩ := done
  rw [Edit.bind_eq_ok] at done
  obtain ⟨_, finished, informedAgain, done⟩ := done
  rw [Edit.bind_eq_ok] at done
  obtain ⟨_, importing, informedOnce, done⟩ := done
  simp only at done
  rw [Edit.bind_eq_ok] at done
  obtain ⟨_, _, got, done⟩ := done
  obtain ⟨rfl, rfl⟩ := get_eq_ok.mp got
  rw [Edit.bind_eq_ok] at done
  obtain ⟨there, inLayout, addedImport, done⟩ := done
  obtain ⟨listed, late, done⟩ := exists_told done
  have early := (quiet_info informedAgain).trans (quiet_info informedOnce)
  rw [Edit.bind_eq_ok] at done
  obtain ⟨_, _, gotAgain, done⟩ := done
  obtain ⟨rfl, rfl⟩ := get_eq_ok.mp gotAgain
  rw [Edit.bind_eq_ok] at done
  obtain ⟨_, remembered, set, done⟩ := done
  cases set
  rw [Edit.bind_eq_ok] at done
  obtain ⟨_, _, saving, done⟩ := done
  obtain ⟨rfl, rfl⟩ := pure_eq_ok.mp done
  exact ⟨told, changed, updated, listed, (quiet_tellAlias toldAlias).trans (quiet_info informed),
    updatedEq, ⟨_, importing, inLayout, early, addedImport, late⟩, saving⟩

/-- Adding families has failed: before the config was changed, with the layout as it was; or when
the config that lists them was to be saved. -/
theorem addFamilies_eq_error {fault : Fault}
    (failed : addFamilies settings directory families layout indexFile naming strict before =
      .error fault after) :
    Sparing settings (Path.join directory indexFile) before after ∨
      ∃ imported updated listed,
        Sparing settings (Path.join directory indexFile) before updated ∧
        Imports settings directory layout naming strict imported updated listed ∧
        Config.saveCurrent settings
          { listed with config := withFamilies families imported listed.config } =
            .error fault after := by
  unfold addFamilies at failed
  rcases Edit.bind_eq_error.mp failed with untold | ⟨_, start, toldAlias, failed⟩
  · unfold tellAlias at untold
    cases given : Layout.given naming.aliasName <;> rw [given] at untold <;> cases untold
  rcases Edit.bind_eq_error.mp failed with untold | ⟨_, told, informed, failed⟩
  · cases untold
  have silent := (quiet_tellAlias toldAlias).trans (quiet_info informed)
  have updates := (Sparing.of_quiet silent).trans
    (@sparing_update settings (Path.join directory indexFile) directory families told)
  rcases Edit.bind_eq_error.mp failed with stopped | ⟨changed, updated, updatedEq, failed⟩
  · rw [leaves_of_error stopped] at updates
    exact Or.inl updates
  rw [leaves_of_ok updatedEq] at updates
  rcases Edit.bind_eq_error.mp failed with untold | ⟨_, finished, informedAgain, failed⟩
  · cases untold
  rcases Edit.bind_eq_error.mp failed with untold | ⟨_, importing, informedOnce, failed⟩
  · cases untold
  have early := (quiet_info informedAgain).trans (quiet_info informedOnce)
  rcases Edit.bind_eq_error.mp failed with ungot | ⟨_, _, got, failed⟩
  · cases ungot
  obtain ⟨rfl, rfl⟩ := get_eq_ok.mp got
  rcases Edit.bind_eq_error.mp failed with stopped | ⟨imported, inLayout, addedImport, failed⟩
  · have silentAgain := early.trans (Layout.quiet_of_addImport_error stopped)
    exact Or.inl (updates.trans (.of_quiet silentAgain))
  obtain ⟨listed, late, failed⟩ := exists_told failed
  rcases Edit.bind_eq_error.mp failed with ungot | ⟨_, _, got, failed⟩
  · cases ungot
  obtain ⟨rfl, rfl⟩ := get_eq_ok.mp got
  rcases Edit.bind_eq_error.mp failed with unset | ⟨_, remembered, set, failed⟩
  · cases unset
  cases set
  rcases Edit.bind_eq_error.mp failed with unsaved | ⟨_, _, _, returned⟩
  · exact Or.inr ⟨imported, updated, listed, updates,
      ⟨_, importing, inLayout, early, addedImport, late⟩, unsaved⟩
  · cases returned

/-- However it ends, either the layout and the config are as they were, or the layout has been seen
to and the config that lists the families was to be saved. -/
theorem leaves_addFamilies (before : Workspace) :
    Sparing settings (Path.join directory indexFile) before
        (leaves (addFamilies settings directory families layout indexFile naming strict) before) ∨
      ∃ imported updated listed,
        Sparing settings (Path.join directory indexFile) before updated ∧
        Imports settings directory layout naming strict imported updated listed ∧
        leaves (addFamilies settings directory families layout indexFile naming strict) before =
          leaves (Config.saveCurrent settings)
            { listed with config := withFamilies families imported listed.config } := by
  cases ended : addFamilies settings directory families layout indexFile naming strict before with
  | error fault after =>
      rw [leaves_of_error ended]
      rcases addFamilies_eq_error ended with
        spared | ⟨imported, updated, listed, spared, imports, unsaved⟩
      · exact Or.inl spared
      · exact Or.inr ⟨imported, updated, listed, spared, imports, (leaves_of_error unsaved).symm⟩
  | ok imported after =>
      rw [leaves_of_ok ended]
      obtain ⟨told, changed, updated, listed, silent, updatedEq, imports, saving⟩ :=
        addFamilies_eq_ok ended
      have updates := @sparing_update settings (Path.join directory indexFile) directory
        families told
      rw [leaves_of_ok updatedEq] at updates
      exact Or.inr ⟨imported, updated, listed, (Sparing.of_quiet silent).trans updates, imports,
        (leaves_of_ok saving).symm⟩

/-- A family has been taken out of the index, in two edits, and of the config; the config is saved
if the project is set up. -/
theorem removeFamily_eq_ok {removed : Bool}
    (done : removeFamily settings index name before = .ok removed after) :
    ∃ told pruned changed merged,
      Quiet before told ∧
      pruneChunks settings Matcher.standard settings.declarationSeparator index
        (exportProbe name) told = .ok removed pruned ∧
      Index.merge settings index
        (defaultExport (before.config.fonts.filter (· ≠ name))) pruned = .ok changed merged ∧
      (before.config.isSetUp ∧ Config.saveCurrent settings
          { merged with config := withoutFamily name before.config } = .ok () after ∨
        before.config.isSetUp = false ∧
          after = { merged with config := withoutFamily name before.config }) := by
  unfold removeFamily at done
  rw [Edit.bind_eq_ok] at done
  obtain ⟨_, told, informed, done⟩ := done
  rw [Edit.bind_eq_ok] at done
  obtain ⟨_, _, got, done⟩ := done
  obtain ⟨rfl, rfl⟩ := get_eq_ok.mp got
  have config := (quiet_info informed).config
  obtain ⟨warned, warning, done⟩ := exists_told done
  have silent := (quiet_info informed).trans warning
  rw [Edit.bind_eq_ok] at done
  obtain ⟨_, pruned, pruning, done⟩ := done
  simp only at done
  rw [Edit.bind_eq_ok] at done
  obtain ⟨changed, merged, merging, done⟩ := done
  rw [Edit.bind_eq_ok] at done
  obtain ⟨_, remembered, set, done⟩ := done
  cases set
  obtain ⟨final, maySave, done⟩ := exists_of_ite done
  obtain ⟨rfl, rfl⟩ := pure_eq_ok.mp done
  rw [config] at merging maySave
  rw [← Bool.not_eq_true]
  exact ⟨warned, pruned, changed, merged, silent, pruning, merging, maySave⟩

end FontScaffold.Project
