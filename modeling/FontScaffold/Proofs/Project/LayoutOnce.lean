import FontScaffold.Proofs.Project.Calls

set_option autoImplicit false

namespace FontScaffold.Project

open Edit File Layout

/-- Where a project has its fonts and its layout, and how it names modules. -/
structure Site where
  directory : Text
  layout : Text
  naming : Naming

/-- A call for families to be added. -/
structure Addition where
  families : List Family
  indexFile : Text
  strict : Bool

def Addition.perform (settings : Settings) (site : Site) (addition : Addition) : Edit Bool :=
  addFamilies settings site.directory addition.families site.layout addition.indexFile site.naming
    addition.strict

/-- The index of the call is a file of its own. -/
def Addition.Apart (settings : Settings) (site : Site) (addition : Addition) : Prop :=
  Tree.target settings.workingDirectory site.layout ≠
    Tree.target settings.workingDirectory (Path.join site.directory addition.indexFile)

/-- The layout that was `original` at first holds `text`, which is that, or that with the block for
the first use. A project that is set up has the import in it. -/
structure Kept (settings : Settings) (site : Site) (specifier original text : Text)
    (workspace : Workspace) : Prop where
  holds : Holds settings workspace.tree site.layout text
  config : Tree.target settings.workingDirectory site.layout ≠
    Tree.target settings.workingDirectory workspace.config.path
  shape : text = original ∨
    ∃ exportName, InsertedBelowImports (statement exportName specifier true) original text
  imported : workspace.config.isSetUp → Text.hasLine (importLine specifier) text

section Steps

variable {settings : Settings} {site : Site} {specifier index original text : Text}
  {strict imported : Bool} {before after : Workspace}

theorem Kept.sparing (kept : Kept settings site specifier original text before)
    (apart : Tree.target settings.workingDirectory site.layout ≠
      Tree.target settings.workingDirectory index)
    (spared : Sparing settings index before after) :
    Kept settings site specifier original text after := by
  refine ⟨spared.files _ text apart kept.holds, ?_, kept.shape, ?_⟩
  · rw [spared.config]
    exact kept.config
  · rw [spared.config]
    exact kept.imported

theorem Kept.saved {config : Config} (kept : Kept settings site specifier original text before)
    (path : config.path = before.config.path)
    (isSetUp : config.isSetUp → Text.hasLine (importLine specifier) text) :
    Kept settings site specifier original text
      (leaves (Config.saveCurrent settings) { before with config }) := by
  obtain ⟨only, same⟩ := Config.confined_saveCurrent settings { before with config }
  have apart := kept.config
  rw [← path] at apart
  refine ⟨only.holds_other kept.holds apart, ?_, kept.shape, ?_⟩
  · rwa [same]
  · rwa [same]

variable (names : Names settings site.layout site.directory site.naming specifier)

include names

/-- Adding the import leaves a layout that has it, and puts into any other the block for first
use. -/
theorem Kept.imports (kept : Kept settings site specifier original text before)
    (imports : Imports settings site.directory site.layout site.naming strict imported before
      after) :
    ∃ final, Kept settings site specifier original final after ∧
      (imported → Text.hasLine (importLine specifier) final) ∧
      (Text.hasLine (importLine specifier) text → final = text) := by
  have config := imports.confined.config
  obtain ⟨exportName, importing, inLayout, early, added, late⟩ := imports
  have holds : Holds settings importing.tree site.layout text := by
    rw [early.tree]
    exact kept.holds
  rcases addImport_eq_ok names added holds with
    ⟨seen, silent⟩ | ⟨_, absent, _, final, inserted, put⟩
  · have quiet := (early.trans silent).trans late
    refine ⟨text, ⟨?_, ?_, kept.shape, ?_⟩, fun found => seen ▸ found, fun _ => rfl⟩
    · rw [quiet.tree]
      exact kept.holds
    · rw [config]
      exact kept.config
    · rw [config]
      exact kept.imported
  · -- Without its import the layout is the first one, and the project is not set up.
    have unset : before.config.isSetUp = false := by
      rw [← Bool.not_eq_true]
      intro isSetUp
      rw [kept.imported isSetUp] at absent
      cases absent
    have first : text = original := by
      rcases kept.shape with same | ⟨_, earlier⟩
      · exact same
      · rw [hasLine_of_inserted names.plain earlier] at absent
        cases absent
    rw [early.config, unset, Bool.not_false, first] at inserted
    have there := hasLine_of_inserted names.plain inserted
    refine ⟨final, ⟨?_, ?_, Or.inr ⟨exportName, inserted⟩, fun _ => there⟩, fun _ => there, ?_⟩
    · rw [late.tree]
      exact put
    · rw [config]
      exact kept.config
    · intro found
      rw [found] at absent
      cases absent

/-- A call keeps the layout as it should be, and as it is if the import is there. -/
theorem Kept.perform (kept : Kept settings site specifier original text before)
    {addition : Addition} (apart : addition.Apart settings site) :
    ∃ final, Kept settings site specifier original final
        (leaves (addition.perform settings site) before) ∧
      (Text.hasLine (importLine specifier) text → final = text) := by
  unfold Addition.perform
  rcases leaves_addFamilies before with
    spared | ⟨imported, updated, listed, spared, imports, saving⟩
  · exact ⟨text, kept.sparing apart spared, fun _ => rfl⟩
  · obtain ⟨final, later, found, same⟩ := (kept.sparing apart spared).imports names imports
    rw [saving]
    refine ⟨final, later.saved (path_withFamilies _ imported listed.config) ?_, same⟩
    intro isSetUp
    rw [isSetUp_withFamilies, Bool.or_eq_true] at isSetUp
    rcases isSetUp with isImported | wasSetUp
    · exact found isImported
    · exact later.imported wasSetUp

end Steps

def begun : Workspace where
  tree := ⟨[
    (["app".utf8, "layout.tsx".utf8],
      .file "import React from \"react\"\n\nexport default React\n".utf8 0o644),
    (["app".utf8], .directory)]⟩
  config := { path := "lofo-config.json".text }
  log := []

def twice : List Addition :=
  [⟨[Index.inter], "index.ts".text, true⟩, ⟨[Index.inter], "other.ts".text, false⟩]

end FontScaffold.Project
