import FontScaffold.Proofs.Index.Probe
import FontScaffold.Proofs.Project.Canonical

set_option autoImplicit false

namespace FontScaffold.Project

open Chunk Edit File Index Merge

variable {settings : Settings} {index directory name text : Text} {families : List Family}
  {before after : Workspace}

/-- Taking the family out finds nothing and leaves every file as it is. -/
def SparesAll (settings : Settings) (index name : Text) (before : Workspace) : Prop :=
  ∃ after, removeFamily settings index name before = .ok false after ∧ after.tree = before.tree

/-- The config lists the families too. -/
def listing (families : List Family) (workspace : Workspace) : Workspace :=
  { workspace with config := workspace.config.changeFonts (· ++ families.map Family.name) }

/-- With a probe that matches nothing and a default export that is there already, both edits of the
index end well and leave it alone. -/
theorem sparesAll_of_refused (unset : before.config.isSetUp = false)
    (holds : Holds settings before.tree index text)
    (listed : (FontScaffold.merge Matcher.standard settings.declarationSeparator text
      (defaultExport (before.config.fonts.filter (· ≠ name)))).content = text)
    (refused : ∀ chunk ∈ split settings.declarationSeparator text,
      ¬Matcher.standard.accepts settings.declarationSeparator (exportProbe name) chunk) :
    SparesAll settings index name before := by
  obtain ⟨informed, told, silent⟩ : ∃ informed,
      info ("Removing font family: ".text ++ name) before = .ok () informed ∧
        Quiet before informed := ⟨_, rfl, ⟨rfl, rfl⟩⟩
  unfold SparesAll
  generalize ended : removeFamily settings index name before = outcome
  unfold removeFamily at ended
  rw [bind_of_ok told, bind_of_ok (get_eq_ok.mpr ⟨rfl, rfl⟩), silent.config] at ended
  obtain ⟨warned, warning, ended⟩ := exists_told ended
  have silent := silent.trans warning
  rw [← silent.tree] at holds
  beta_reduce at ended
  rw [bind_of_ok (pruneChunks_of_refused holds refused)] at ended
  obtain ⟨merged, merging, tree, _⟩ : ∃ merged,
      Index.merge settings index (defaultExport (before.config.fonts.filter (· ≠ name))) warned =
        .ok false merged ∧ merged.tree = warned.tree ∧ merged.config = warned.config :=
    mergeChunks_of_content_eq holds listed
  have stays : (before.config.changeFonts fun fonts => fonts.filter (· ≠ name)).isSetUp = false :=
    unset
  simp only [bind_of_ok merging, stays] at ended
  subst ended
  exact ⟨_, rfl, tree.trans silent.tree⟩

/-- Where the default export is there already, nothing is taken out exactly if the probe matches no
chunk of the index. -/
theorem sparesAll_iff_refused (unset : before.config.isSetUp = false)
    (holds : Holds settings before.tree index text)
    (listed : (FontScaffold.merge Matcher.standard settings.declarationSeparator text
      (defaultExport (before.config.fonts.filter (· ≠ name)))).content = text) :
    SparesAll settings index name before ↔
      ∀ chunk ∈ split settings.declarationSeparator text,
        ¬Matcher.standard.accepts settings.declarationSeparator (exportProbe name) chunk := by
  constructor
  · rintro ⟨after, done, _⟩
    obtain ⟨told, pruned, _, _, silent, pruning, _, _⟩ := removeFamily_eq_ok done
    rw [← silent.tree] at holds
    have unchanged := changed_of_pruneChunks holds pruning
    rw [← removed_eq_nil_iff]
    by_contra some
    rw [(changed_prune_iff _ _ _).mpr some] at unchanged
    cases unchanged
  · exact sparesAll_of_refused unset holds listed

theorem listed_of_update {changed : Bool} (separated : settings.declarationSeparator = blankLine)
    (identifiers : ∀ font ∈ before.config.fonts ++ families.map Family.name, isIdentifier font)
    (done : Index.update settings index families directory before = .ok changed after) :
    ∃ text, Holds settings after.tree index text ∧
      (FontScaffold.merge Matcher.standard settings.declarationSeparator text
        (defaultExport (before.config.fonts ++ families.map Family.name))).content = text ∧
      after.config = before.config := by
  obtain ⟨parts, _, _, text, rendered, ensuredEq, rewritten⟩ := update_eq_ok done
  obtain ⟨_, _, _, listedEq⟩ := render_eq_ok rendered
  refine ⟨_, rewritten.last, ?_, rewritten.config.trans (ensure_eq_ok ensuredEq).1⟩
  unfold updatedText
  rw [separated, listedEq]
  exact content_merge_again blankLine_ne_nil (unlike_defaultExport identifiers)
    (apart_defaultExport identifiers)

/-- An index made from nothing, with the usual import, is in canonical form. -/
theorem laid_of_update_missing {changed : Bool}
    (separated : settings.declarationSeparator = blankLine)
    (usual : settings.loaderImport = defaultImport)
    (missing : before.tree.pathExists settings.workingDirectory index = false)
    (fresh : before.config.fonts = [])
    (names : ∀ family ∈ families, IsName family.name)
    (distinct : (families.map Family.name).Nodup)
    (done : Index.update settings index families directory before = .ok changed after) :
    ∃ middle, Laid settings.workingDirectory directory (defaultImport ++ blankLine)
        (record families fun _ => []) (families.map Family.name) (families.map Family.name) middle ∧
      Holds settings after.tree index
        (laidText (defaultImport ++ blankLine) middle (families.map Family.name)) := by
  have foreign : Foreign (settings.loaderImport ++ blankLine) := by
    rw [usual]
    exact foreign_heading
  have start : ∀ created ensured, ensure settings index none before = .ok created ensured →
      ∃ middle, Laid settings.workingDirectory directory (settings.loaderImport ++ blankLine)
          (fun _ => []) before.config.fonts before.config.fonts middle ∧
        Holds settings ensured.tree index
          (laidText (settings.loaderImport ++ blankLine) middle before.config.fonts) := by
    intro _ _ ensured
    rw [fresh]
    exact ⟨[], laid_of_ensure_missing foreign missing ensured⟩
  obtain ⟨laid, _⟩ := laid_of_update separated start names distinct done
  rwa [fresh, List.nil_append, FirstOccurrences.eraseDups_of_nodup distinct, usual] at laid

/-- In an index made from nothing, with its families listed, taking out a family that is not listed
spares everything exactly if its probe matches no chunk; with the usual import, exactly if what the
name leaves in the probe does not find the export of any of the families. -/
theorem unlisted_removal_iff {changed : Bool}
    (separated : settings.declarationSeparator = "\n\n".text)
    (missing : before.tree.pathExists settings.workingDirectory index = false)
    (fresh : before.config.fonts = []) (unset : before.config.isSetUp = false)
    (names : ∀ family ∈ families, IsName family.name)
    (distinct : (families.map Family.name).Nodup)
    (done : Index.update settings index families directory before = .ok changed after)
    (unlisted : name ∉ families.map Family.name) :
    (∃ text, Holds settings after.tree index text ∧
      (SparesAll settings index name (listing families after) ↔
        ∀ chunk ∈ split settings.declarationSeparator text,
          ¬Matcher.standard.accepts settings.declarationSeparator (exportProbe name) chunk)) ∧
      (settings.loaderImport = defaultImport →
        (SparesAll settings index name (listing families after) ↔
          ∀ family ∈ families, ¬Finds name family.name)) := by
  have separated : settings.declarationSeparator = blankLine := separated
  have identifiers : ∀ font ∈ before.config.fonts ++ families.map Family.name,
      isIdentifier font := by
    intro font member
    rw [fresh, List.nil_append] at member
    obtain ⟨family, inside, rfl⟩ := List.mem_map.mp member
    exact (names family inside).identifier
  obtain ⟨text, holds, stays, config⟩ := listed_of_update separated identifiers done
  have rest : (listing families after).config.fonts.filter (· ≠ name) =
      before.config.fonts ++ families.map Family.name := by
    have fonts : (listing families after).config.fonts =
        (after.config.fonts ++ families.map Family.name).eraseDups := rfl
    rw [fonts, config, fresh, List.nil_append, FirstOccurrences.eraseDups_of_nodup distinct,
      List.filter_eq_self]
    exact fun font member => decide_eq_true fun same => unlisted (same ▸ member)
  rw [← rest] at stays
  have unset : (listing families after).config.isSetUp = false :=
    (congrArg Config.isSetUp config).trans unset
  have spares := sparesAll_iff_refused unset holds stays
  refine ⟨⟨text, holds, spares⟩, fun usual => ?_⟩
  obtain ⟨middle, laid, shape⟩ :=
    laid_of_update_missing separated usual missing fresh names distinct done
  rw [holds.unique shape, separated, refused_by_exportProbe_iff laid, List.forall_mem_map] at spares
  exact spares

theorem isName_of_site : ∀ family ∈ [inter, roboto], IsName family.name := by
  intro family member
  rcases List.mem_pair.mp member with rfl | rfl
  · exact ⟨by decide, by decide, by decide⟩
  · exact ⟨by decide, by decide, by decide⟩

theorem unlisted_lato_spares_all :
    ∃ changed after,
      Index.update (Settings.ofEnvironment "/app".text []) siteFonts.index [inter, roboto]
        siteFonts.directory unset = .ok changed after ∧
      SparesAll (Settings.ofEnvironment "/app".text []) siteFonts.index "lato".text
        (listing [inter, roboto] after) := by
  have success : succeeds (Index.update (Settings.ofEnvironment "/app".text []) siteFonts.index
      [inter, roboto] siteFonts.directory) unset := by decide +kernel
  obtain ⟨changed, after, done⟩ := exists_of_succeeds success
  obtain ⟨_, spares⟩ := unlisted_removal_iff rfl (by decide +kernel) rfl rfl isName_of_site
    (by decide) done (by decide : "lato".text ∉ [inter, roboto].map Family.name)
  exact ⟨changed, after, done, (spares rfl).mpr (by decide +kernel)⟩

/-- Two families are written and listed, and one without a name is taken out. -/
def namelessRemoval : Edit (Bool × Text) := do
  let _ ← Index.update (Settings.ofEnvironment "/app".text []) siteFonts.index [inter, roboto]
    siteFonts.directory
  modify (listing [inter, roboto])
  let removed ← removeFamily (Settings.ofEnvironment "/app".text []) siteFonts.index []
  let text ← File.read (Settings.ofEnvironment "/app".text []) siteFonts.index []
  return (removed, text)

/-- A name without words takes all exports out, though no family has it; they stay listed. -/
theorem nameless_removal_takes_all_out :
    ∃ changed after final,
      Index.update (Settings.ofEnvironment "/app".text []) siteFonts.index [inter, roboto]
        siteFonts.directory unset = .ok changed after ∧
      [] ∉ [inter, roboto].map Family.name ∧
      removeFamily (Settings.ofEnvironment "/app".text []) siteFonts.index []
        (listing [inter, roboto] after) = .ok true final ∧
      Holds (Settings.ofEnvironment "/app".text []) final.tree siteFonts.index
        (laidText (defaultImport ++ blankLine) [] [inter.name, roboto.name]) := by
  have ended : outcome namelessRemoval unset =
      .ok (true, laidText (defaultImport ++ blankLine) [] [inter.name, roboto.name]) := by
    decide +kernel
  obtain ⟨_, done⟩ := outcome_eq_ok.mp ended
  unfold namelessRemoval at done
  rw [Edit.bind_eq_ok] at done
  obtain ⟨changed, after, updated, done⟩ := done
  rw [Edit.bind_eq_ok] at done
  obtain ⟨_, _, listed, done⟩ := done
  cases listed
  rw [Edit.bind_eq_ok] at done
  obtain ⟨removed, final, taken, done⟩ := done
  rw [Edit.bind_eq_ok] at done
  obtain ⟨text, _, got, done⟩ := done
  obtain ⟨same, _⟩ := pure_eq_ok.mp done
  cases same
  exact ⟨changed, after, final, updated, by decide, taken, (read_eq_ok.mp got).1⟩

end FontScaffold.Project
