import FontScaffold.Proofs.Index.Edits
import FontScaffold.Proofs.Project.Calls

set_option autoImplicit false

namespace FontScaffold.Project

open Chunk Edit File Index

/-- Where a project has its fonts, its index and its layout. -/
structure Place where
  directory : Text
  indexFile : Text
  layout : Text

def Place.index (place : Place) : Text :=
  Path.join place.directory place.indexFile

/-- What a project is called for: to add families, or to take one out. -/
inductive Call where
  | add (families : List Family) (naming : Layout.Naming)
  | remove (name : Text)

def Call.perform (settings : Settings) (place : Place) : Call → Edit Bool
  | .add families naming =>
      addFamilies settings place.directory families place.layout place.indexFile naming false
  | .remove name => removeFamily settings place.index name

def performAll (settings : Settings) (place : Place) : List Call → Edit Unit
  | [] => pure ()
  | call :: rest => do
      let _ ← call.perform settings place
      performAll settings place rest

/-- The names in a call are proper ones, and no two families have the same. -/
def Call.Proper : Call → Prop
  | .add families _ =>
      (∀ family ∈ families, IsName family.name) ∧ (families.map Family.name).Nodup
  | .remove name => IsName name

/-- The fonts last written for each name, after a call. -/
def Call.record (written : Text → List Font) : Call → Text → List Font
  | .add families _ => Index.record families written
  | .remove _ => written

def lastWritten (calls : List Call) : Text → List Font :=
  calls.foldl Call.record fun _ => []

/-- The index is in canonical form, for the fonts. -/
def IsCanonical (settings : Settings) (place : Place) (written : Text → List Font)
    (fonts : List Text) (tree : Tree) : Prop :=
  ∃ middle,
    Laid settings.workingDirectory place.directory (settings.loaderImport ++ blankLine) written
      fonts fonts middle ∧
    Holds settings tree place.index
      (laidText (settings.loaderImport ++ blankLine) middle fonts)

variable {settings : Settings} {place : Place} {written : Text → List Font} {fonts : List Text}
  {families : List Family} {name : Text} {before after : Workspace}

theorem IsCanonical.nodup {tree : Tree}
    (canonical : IsCanonical settings place written fonts tree) :
    fonts.Nodup := by
  obtain ⟨middle, laid, _⟩ := canonical
  exact laid.distinct

theorem IsCanonical.holds {tree : Tree}
    (canonical : IsCanonical settings place written fonts tree) :
    ∃ text, canonicalText settings place.directory written fonts = .ok text ∧
      Holds settings tree place.index text := by
  obtain ⟨middle, laid, holds⟩ := canonical
  exact ⟨_, canonicalText_of_laid laid, holds⟩

theorem IsCanonical.onlyAt {tree later : Tree} {path : Text}
    (canonical : IsCanonical settings place written fonts tree)
    (only : OnlyAt settings path tree later)
    (different : Tree.target settings.workingDirectory place.index ≠
      Tree.target settings.workingDirectory path) :
    IsCanonical settings place written fonts later := by
  obtain ⟨middle, laid, holds⟩ := canonical
  exact ⟨middle, laid, only.holds_other holds different⟩

/-- The index is missing and nothing is remembered, or it is in canonical form already. -/
def Begun (settings : Settings) (place : Place) (written : Text → List Font)
    (workspace : Workspace) : Prop :=
  workspace.tree.pathExists settings.workingDirectory place.index = false ∧
      workspace.config.fonts = [] ∨
    IsCanonical settings place written workspace.config.fonts workspace.tree

/-- The skeleton is the canonical index without families. -/
theorem canonical_of_ensure {created : Bool}
    (heading : Foreign (settings.loaderImport ++ blankLine))
    (begun : Begun settings place written before)
    (done : Index.ensure settings place.index none before = .ok created after) :
    IsCanonical settings place written before.config.fonts after.tree := by
  obtain ⟨_, ⟨there, rfl⟩ | ⟨missing, _⟩⟩ := ensure_eq_ok done
  · rcases begun with ⟨missing, _⟩ | canonical
    · rw [there] at missing
      cases missing
    · exact canonical
  · rcases begun with ⟨_, none⟩ | ⟨_, _, present⟩
    · obtain ⟨laid, start⟩ := laid_of_ensure_missing heading missing done
      rw [none]
      exact ⟨[], laid, start⟩
    · rw [present.pathExists] at missing
      cases missing

theorem canonical_of_update {changed : Bool}
    (separated : settings.declarationSeparator = blankLine)
    (heading : Foreign (settings.loaderImport ++ blankLine))
    (begun : Begun settings place written before)
    (names : ∀ family ∈ families, IsName family.name)
    (distinct : (families.map Family.name).Nodup)
    (done : Index.update settings place.index families place.directory before =
      .ok changed after) :
    IsCanonical settings place (Index.record families written)
        (before.config.fonts ++ families.map Family.name).eraseDups after.tree ∧
      after.config = before.config :=
  laid_of_update separated (fun _ _ ensured => canonical_of_ensure heading begun ensured) names
    distinct done

/-- The config lists families, and of the tree only the config file may have changed. -/
structure Remembered (settings : Settings) (before after : Workspace)
    (fonts : List Text) : Prop where
  fonts : after.config.fonts = fonts.eraseDups
  path : after.config.path = before.config.path
  only : OnlyAt settings before.config.path before.tree after.tree

theorem remembered_of_save {config : Config} {result : Unit}
    (listed : config.fonts = fonts.eraseDups) (path : config.path = before.config.path)
    (done : Config.saveCurrent settings { before with config } = .ok result after) :
    Remembered settings before after fonts := by
  obtain ⟨⟨written, _, replaced⟩, same⟩ := Config.installed_of_saveCurrent done
  refine ⟨(congrArg Config.fonts same).trans listed, (congrArg Config.path same).trans path, ?_⟩
  rw [← path]
  exact Or.inr ⟨written, replaced⟩

theorem remembered_of_withoutFamily {merged : Workspace}
    (ended : before.config.isSetUp ∧ Config.saveCurrent settings
        { merged with config := withoutFamily name before.config } = .ok () after ∨
      before.config.isSetUp = false ∧
        after = { merged with config := withoutFamily name before.config }) :
    Remembered settings { merged with config := before.config } after
      (before.config.fonts.filter (· ≠ name)) := by
  rcases ended with ⟨_, saving⟩ | ⟨_, rfl⟩
  · have fonts : (withoutFamily name before.config).fonts =
        (before.config.fonts.filter (· ≠ name)).eraseDups := rfl
    have path : (withoutFamily name before.config).path =
        ({ merged with config := before.config } : Workspace).config.path := rfl
    exact remembered_of_save fonts path saving
  · exact ⟨rfl, rfl, Or.inl rfl⟩

/-- The index is a file of its own, apart from the layout and the config. -/
structure Separate (settings : Settings) (place : Place) (config : Text) : Prop where
  layout : Tree.target settings.workingDirectory place.index ≠
    Tree.target settings.workingDirectory place.layout
  config : Tree.target settings.workingDirectory place.index ≠
    Tree.target settings.workingDirectory config

theorem canonical_of_addFamilies {naming : Layout.Naming} {imported : Bool}
    (separated : settings.declarationSeparator = blankLine)
    (heading : Foreign (settings.loaderImport ++ blankLine))
    (begun : Begun settings place written before)
    (separate : Separate settings place before.config.path)
    (names : ∀ family ∈ families, IsName family.name)
    (distinct : (families.map Family.name).Nodup)
    (done : addFamilies settings place.directory families place.layout place.indexFile naming false
      before = .ok imported after) :
    IsCanonical settings place (Index.record families written) after.config.fonts after.tree ∧
      after.config.path = before.config.path := by
  obtain ⟨told, changed, updated, listed, silent, updatedEq, imports, saving⟩ :=
    addFamilies_eq_ok done
  have remembered := remembered_of_save (fonts_withFamilies families imported listed.config)
    (path_withFamilies families imported listed.config) saving
  unfold Begun at begun
  rw [← silent.tree, ← silent.config] at begun
  obtain ⟨canonical, config⟩ := canonical_of_update separated heading begun names distinct updatedEq
  have same : listed.config = before.config :=
    imports.confined.config.trans (config.trans silent.config)
  have apart := separate.config
  rw [← same] at apart
  rw [remembered.path, remembered.fonts, same]
  rw [silent.config] at canonical
  exact ⟨(canonical.onlyAt imports.confined.only separate.layout).onlyAt remembered.only apart, rfl⟩

/-- Taking a family out takes its export and its name out of the index. -/
theorem canonical_of_removeFamily {removed : Bool}
    (separated : settings.declarationSeparator = blankLine)
    (canonical : IsCanonical settings place written before.config.fonts before.tree)
    (separate : Separate settings place before.config.path) (isName : IsName name)
    (done : removeFamily settings place.index name before = .ok removed after) :
    IsCanonical settings place written after.config.fonts after.tree ∧
      after.config.path = before.config.path := by
  obtain ⟨told, pruned, changed, merged, silent, pruning, merging, ended⟩ := removeFamily_eq_ok done
  have remembered := remembered_of_withoutFamily ended
  rw [← silent.tree] at canonical
  obtain ⟨middle, laid, holds⟩ := canonical
  obtain ⟨text, prunedText⟩ := rewritten_pruneChunks pruning
  obtain ⟨content, mergedText⟩ := rewritten_merge merging
  obtain ⟨rest, relaid, prunedEq⟩ := content_prune_laid laid isName
  have kept : ∀ other ∈ before.config.fonts.filter (· ≠ name), isIdentifier other :=
    fun other member => (relaid.names other member).identifier
  rw [prunedText.first.unique holds, separated, prunedEq] at prunedText
  rw [mergedText.first.unique prunedText.last, separated, content_merge_listed relaid kept]
    at mergedText
  have canonical : IsCanonical settings place written (before.config.fonts.filter (· ≠ name))
      merged.tree := ⟨rest, { relaid with identifiers := kept }, mergedText.last⟩
  rw [remembered.path, remembered.fonts, FirstOccurrences.eraseDups_of_nodup relaid.distinct]
  exact ⟨canonical.onlyAt remembered.only separate.config, rfl⟩

theorem canonical_of_perform {call : Call} {result : Bool}
    (separated : settings.declarationSeparator = blankLine)
    (canonical : IsCanonical settings place written before.config.fonts before.tree)
    (separate : Separate settings place before.config.path) (proper : call.Proper)
    (done : call.perform settings place before = .ok result after) :
    IsCanonical settings place (call.record written) after.config.fonts after.tree ∧
      after.config.path = before.config.path := by
  cases call with
  | add families naming =>
      have heading : Foreign (settings.loaderImport ++ blankLine) := by
        obtain ⟨_, laid, _⟩ := canonical
        exact laid.foreign
      exact canonical_of_addFamilies separated heading (Or.inr canonical) separate proper.1 proper.2
        done
  | remove name => exact canonical_of_removeFamily separated canonical separate proper done

/-- Calls keep the index in canonical form. -/
theorem canonical_of_performAll {calls : List Call}
    (separated : settings.declarationSeparator = blankLine)
    (canonical : IsCanonical settings place written before.config.fonts before.tree)
    (separate : Separate settings place before.config.path) (proper : ∀ call ∈ calls, call.Proper)
    (done : performAll settings place calls before = .ok () after) :
    IsCanonical settings place (calls.foldl Call.record written) after.config.fonts after.tree := by
  induction calls generalizing before written with
  | nil =>
      obtain ⟨_, rfl⟩ := pure_eq_ok.mp done
      exact canonical
  | cons call calls ih =>
      unfold performAll at done
      rw [Edit.bind_eq_ok] at done
      obtain ⟨_, middle, performed, done⟩ := done
      obtain ⟨next, path⟩ := canonical_of_perform separated canonical separate
        (proper call List.mem_cons_self) performed
      rw [← path] at separate
      exact ih next separate (fun other member => proper other (List.mem_cons_of_mem call member))
        done

theorem performAll_append {first rest : List Call}
    (done : performAll settings place (first ++ rest) before = .ok () after) :
    ∃ middle, performAll settings place first before = .ok () middle := by
  induction first generalizing before with
  | nil => exact ⟨before, rfl⟩
  | cons call first ih =>
      rw [List.cons_append, performAll, Edit.bind_eq_ok] at done
      obtain ⟨result, next, performed, done⟩ := done
      obtain ⟨middle, rest⟩ := ih done
      refine ⟨middle, ?_⟩
      unfold performAll
      rw [Edit.bind_eq_ok]
      exact ⟨result, next, performed, rest⟩

/-- With nothing remembered and no index, with the settings of an empty environment, the index has
the canonical text after every call, the first of which adds families. -/
theorem canonical_after_every_call {cwd : Text} {place : Place} {before after : Workspace}
    {families : List Family} {naming : Layout.Naming} {calls : List Call}
    (fresh : before.config.fonts = [])
    (missing : before.tree.pathExists cwd place.index = false)
    (apartLayout : Tree.target cwd place.index ≠ Tree.target cwd place.layout)
    (apartConfig : Tree.target cwd place.index ≠ Tree.target cwd before.config.path)
    (proper : ∀ call ∈ Call.add families naming :: calls, call.Proper)
    (done :
      performAll (Settings.ofEnvironment cwd []) place (.add families naming :: calls) before =
      .ok () after) :
    ∀ first rest, calls = first ++ rest → ∃ middle text,
      performAll (Settings.ofEnvironment cwd []) place (.add families naming :: first) before =
        .ok () middle ∧
      canonicalText (Settings.ofEnvironment cwd []) place.directory
        (lastWritten (.add families naming :: first)) middle.config.fonts = .ok text ∧
      Holds (Settings.ofEnvironment cwd []) middle.tree place.index text ∧
      middle.config.fonts.Nodup := by
  rintro first rest rfl
  rw [← List.cons_append] at done
  obtain ⟨middle, performed⟩ := performAll_append done
  refine ⟨middle, ?_⟩
  have separate : Separate (Settings.ofEnvironment cwd []) place before.config.path :=
    ⟨apartLayout, apartConfig⟩
  have added := performed
  unfold performAll at added
  rw [Edit.bind_eq_ok] at added
  obtain ⟨_, start, adding, later⟩ := added
  obtain ⟨names, distinct⟩ := proper _ List.mem_cons_self
  obtain ⟨canonical, path⟩ := @canonical_of_addFamilies _ _ (fun _ => []) _ _ _ _ _ rfl
    foreign_heading (Or.inl ⟨missing, fresh⟩) separate names distinct adding
  rw [← path] at separate
  have canonical := canonical_of_performAll rfl canonical separate
    (fun call member => proper call (by simp [member])) later
  obtain ⟨text, shape, holds⟩ := canonical.holds
  exact ⟨text, performed, shape, holds, canonical.nodup⟩

def unset : Workspace where
  tree := ⟨[
    (["app".utf8, "layout.tsx".utf8],
      .file "import React from \"react\"\n\nexport const x = 1\n".utf8 0o644),
    (["app".utf8], .directory)]⟩
  config := { path := "lofo-config.json".text }
  log := []

def siteFonts : Place where
  directory := "fonts".text
  indexFile := "index.ts".text
  layout := "layout.tsx".text

def roboto : Family where
  name := "roboto".text
  fonts := [Font.ofPath "/app/public/Roboto-Thin.ttf".text]

def siteCalls : List Call :=
  [.add [{ roboto with fonts := [Font.ofPath "/app/public/Roboto-Bold.ttf".text] }] ⟨none, none⟩,
    .remove "inter".text]

theorem canonical_after_site_calls :
    ∃ middle text,
      performAll (Settings.ofEnvironment "/app".text []) siteFonts
        (.add [inter, roboto] ⟨none, none⟩ :: siteCalls) unset = .ok () middle ∧
      canonicalText (Settings.ofEnvironment "/app".text []) siteFonts.directory
        (lastWritten (.add [inter, roboto] ⟨none, none⟩ :: siteCalls)) middle.config.fonts =
          .ok text ∧
      Holds (Settings.ofEnvironment "/app".text []) middle.tree siteFonts.index text ∧
      middle.config.fonts.Nodup := by
  have success : succeeds (performAll (Settings.ofEnvironment "/app".text []) siteFonts
      (.add [inter, roboto] ⟨none, none⟩ :: siteCalls)) unset := by decide +kernel
  obtain ⟨_, after, done⟩ := exists_of_succeeds success
  have isInter : IsName "inter".text := ⟨by decide, by decide, by decide⟩
  have isRoboto : IsName "roboto".text := ⟨by decide, by decide, by decide⟩
  have proper : ∀ call ∈ Call.add [inter, roboto] ⟨none, none⟩ :: siteCalls, call.Proper := by
    intro call member
    simp only [siteCalls, List.mem_cons, List.not_mem_nil, or_false] at member
    rcases member with rfl | rfl | rfl
    · refine ⟨?_, by decide⟩
      intro family inside
      simp only [List.mem_cons, List.not_mem_nil, or_false] at inside
      rcases inside with rfl | rfl
      · exact isInter
      · exact isRoboto
    · refine ⟨?_, by decide⟩
      intro family inside
      rw [List.mem_singleton.mp inside]
      exact isRoboto
    · exact isInter
  exact canonical_after_every_call rfl (by decide +kernel) (by decide +kernel) (by decide +kernel)
    proper done siteCalls [] (List.append_nil siteCalls).symm

end FontScaffold.Project
