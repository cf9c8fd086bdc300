import FontScaffold.Project
import FontScaffold.Proofs.File.Edits

set_option autoImplicit false

namespace FontScaffold.Layout

/-- The line is blank and follows a line with an import, so it is not the first. -/
def IsBoundary (before : List Text) (line : Text) : Prop :=
  Text.isVisible line = false ∧
    ∃ last, before.getLast? = some last ∧ Text.occursIn Sighting.importWord last

/-- A block has gone in directly before the first boundary, and nothing else has changed. -/
def InsertedBelowImports (block original text : Text) : Prop :=
  ∃ before line behind, Text.lines original = before ++ line :: behind ∧
    IsBoundary before line ∧
    (∀ earlier passed later, before = earlier ++ passed :: later → ¬IsBoundary earlier passed) ∧
    text = before.flatten ++ block ++ (line :: behind).flatten

theorem endsImports_after_iff {before : List Text} {line : Text} :
    Sighting.endsImports (.after 1 before line) = true ↔ IsBoundary before line := by
  rcases List.eq_nil_or_concat before with rfl | ⟨init, last, rfl⟩
  · simp [Sighting.endsImports, Sighting.after, IsBoundary]
  · have seen : window 1 (init ++ [last]) = [last] := by simp [window]
    simp [Sighting.endsImports, Sighting.after, IsBoundary, seen]

theorem insertedBelowImports_of_spliced {block original text : Text}
    (spliced : Insertion.Spliced (.ofBool Sighting.endsImports) 1 block original text) :
    InsertedBelowImports block original text := by
  obtain ⟨tree, left, before, line, behind, split, ⟨next, refuses, accepted⟩, rfl⟩ := spliced
  obtain ⟨each, rfl⟩ := LinePredicate.refuses_ofBool_iff.mp refuses
  refine ⟨before, line, behind, split, ?_, ?_, rfl⟩
  · exact endsImports_after_iff.mp (LinePredicate.judge_ofBool_eq_ok.mp accepted).1
  · rintro earlier passed later rfl isBoundary
    have refused := each _ (after_mem_sightingsAfter 1 earlier passed later)
    rw [endsImports_after_iff.mpr isBoundary] at refused
    cases refused

section Line

variable {specifier : Text}

theorem importLine_ne_nil (specifier : Text) : importLine specifier ≠ [] :=
  List.cons_ne_nil _ _

theorem isBreak_importLine (plain : ∀ c ∈ specifier, Text.isBreak c = false) :
    ∀ c ∈ importLine specifier, Text.isBreak c = false := by
  have words : ("import localfonts from \"".text.all fun c => !Text.isBreak c) = true := by decide
  intro c member
  unfold importLine at member
  rcases List.mem_append.mp member with inside | last
  · rcases List.mem_append.mp inside with inWords | inName
    · have noBreak := List.all_eq_true.mp words c inWords
      rwa [Bool.not_eq_true'] at noBreak
    · exact plain c inName
  · rw [List.mem_singleton.mp last]
    rfl

theorem strip_importLine (specifier : Text) :
    Text.strip (importLine specifier) = importLine specifier := by
  have shape : importLine specifier =
      .char 'i' :: ("mport localfonts from \"".text ++ specifier) ++ [.char '"'] := rfl
  rw [shape]
  exact Text.strip_eq_self rfl rfl

theorem head_visibleLines_statement (plain : ∀ c ∈ specifier, Text.isBreak c = false)
    (exportName : Text) (firstUse : Bool) :
    (Text.visibleLines (statement exportName specifier firstUse)).head?.getD [] =
      importLine specifier := by
  rw [statement, Text.visibleLines_line (isBreak_importLine plain)]
  rfl

theorem hasLine_of_inserted {exportName original text : Text} {firstUse : Bool}
    (plain : ∀ c ∈ specifier, Text.isBreak c = false)
    (inserted : InsertedBelowImports (statement exportName specifier firstUse) original text) :
    Text.hasLine (importLine specifier) text := by
  obtain ⟨before, line, behind, split, _, _, rfl⟩ := inserted
  rw [statement, List.append_assoc, List.append_assoc, List.cons_append]
  exact Text.hasLine_append (Text.closed_of_lines split) (importLine_ne_nil specifier)
    (isBreak_importLine plain) (strip_importLine specifier)

end Line

open Edit File

/-- The layout imports the fonts from `specifier`, which has no line breaks. -/
structure Names (settings : Settings) (layout directory : Text) (naming : Naming)
    (specifier : Text) : Prop where
  way : ∃ path, importPath settings.workingDirectory layout directory naming = .ok path ∧
    Layout.specifier settings.workingDirectory path naming.aliasName naming.root = specifier
  plain : ∀ c ∈ specifier, Text.isBreak c = false

variable {settings : Settings} {layout directory exportName specifier text : Text} {naming : Naming}
  {strict imported : Bool} {before after : Workspace}

/-- There is always a way to the fonts. -/
theorem exists_importPath (cwd layout directory : Text) (naming : Naming) :
    ∃ path, importPath cwd layout directory naming = .ok path := by
  unfold importPath
  cases given naming.aliasName with
  | some name => exact ⟨_, rfl⟩
  | none =>
      have proper : ¬(Path.absolute cwd directory).isEmpty := by
        unfold Path.absolute Path.normalize
        split
        · exact Bool.false_ne_true
        · next some => rwa [List.isEmpty_iff]
      have isSome : (Path.relative? cwd (Path.absolute cwd directory)
          (Path.directory (Path.absolute cwd layout))).isSome := by
        rw [Path.relative?, if_neg proper]
        simp only
        split <;> rfl
      obtain ⟨way, found⟩ := Option.isSome_iff_exists.mp isSome
      exact ⟨way, by simp only [found]⟩

section Place

variable {block : Text}

/-- A block that cannot be placed, for want of a place too, leaves the layout as it is. -/
theorem quiet_of_place_error {fault : Fault}
    (failed : place settings layout block strict before = .error fault after) :
    Quiet before after := by
  unfold place at failed
  rcases Edit.bind_eq_error.mp failed with unread | ⟨text, _, found, failed⟩
  · exact quiet_of_read_error unread
  obtain ⟨_, rfl⟩ := read_eq_ok.mp found
  split at failed
  · cases failed
  rcases Edit.bind_eq_error.mp failed with uninserted | ⟨inserted, middle, insertion, failed⟩
  · exact allOrNothing_insertBelowImports.failed _ _ _ uninserted
  split at failed
  · next refused =>
      rw [Bool.and_eq_true, Bool.not_eq_true'] at refused
      cases failed
      exact allOrNothing_insertBelowImports.declined _ _ _ insertion refused.1
  · cases failed

theorem place_of_hasLine (holds : Holds settings before.tree layout text)
    (there : Text.hasLine ((Text.visibleLines block).head?.getD []) text) (strict : Bool) :
    ∃ final, place settings layout block strict before = .ok true final ∧ Quiet before final := by
  unfold place
  rw [bind_of_ok (read_eq_ok.mpr ⟨holds, rfl⟩), if_pos there]
  exact ⟨_, rfl, rfl, rfl⟩

/-- The block has its line there already, or there is no place for it; or it has gone in below the
imports. -/
theorem place_eq_ok (done : place settings layout block strict before = .ok imported after)
    (holds : Holds settings before.tree layout text) :
    imported = Text.hasLine ((Text.visibleLines block).head?.getD []) text ∧ Quiet before after ∨
      imported = true ∧ Text.hasLine ((Text.visibleLines block).head?.getD []) text = false ∧
        after.config = before.config ∧
        ∃ final, InsertedBelowImports block text final ∧
        Holds settings after.tree layout final := by
  unfold place at done
  rw [bind_of_ok (read_eq_ok.mpr ⟨holds, rfl⟩)] at done
  split at done
  · next there =>
      obtain ⟨_, _, informed, done⟩ := Edit.bind_eq_ok.mp done
      obtain ⟨rfl, rfl⟩ := pure_eq_ok.mp done
      exact Or.inl ⟨there.symm, quiet_info informed⟩
  · next absent =>
      rw [Bool.not_eq_true] at absent
      obtain ⟨inserted, middle, insertion, done⟩ := Edit.bind_eq_ok.mp done
      split at done
      · cases done
      obtain ⟨rfl, rfl⟩ := pure_eq_ok.mp done
      cases inserted with
      | false =>
          exact Or.inl ⟨absent.symm, allOrNothing_insertBelowImports.declined _ _ _ insertion rfl⟩
      | true =>
          obtain ⟨config, final, ⟨original, same, spliced⟩, replaced⟩ :=
            allOrNothing_insertBelowImports.wrote _ _ _ insertion rfl
          rw [same.unique holds] at spliced
          exact Or.inr ⟨rfl, absent, config, final, insertedBelowImports_of_spliced spliced,
            holds_of_installed replaced⟩

theorem confined_of_place
    (done : place settings layout block strict before = .ok imported after) :
    Confined settings layout before after := by
  unfold place at done
  obtain ⟨text, _, found, done⟩ := Edit.bind_eq_ok.mp done
  obtain ⟨_, rfl⟩ := read_eq_ok.mp found
  split at done
  · obtain ⟨_, _, informed, done⟩ := Edit.bind_eq_ok.mp done
    obtain ⟨_, rfl⟩ := pure_eq_ok.mp done
    exact .of_quiet (quiet_info informed)
  · obtain ⟨inserted, middle, insertion, done⟩ := Edit.bind_eq_ok.mp done
    have confined := allOrNothing_insertBelowImports.confined_of_ok insertion
    split at done
    · cases done
    · obtain ⟨_, rfl⟩ := pure_eq_ok.mp done
      exact confined

end Place

theorem addImport_of_way {path : Text}
    (way : importPath settings.workingDirectory layout directory naming = .ok path)
    (exportName : Text) (strict : Bool) (before : Workspace) :
    addImport settings layout directory exportName naming strict before =
      place settings layout
        (statement exportName
          (Layout.specifier settings.workingDirectory path naming.aliasName naming.root)
          (!before.config.isSetUp)) strict before := by
  unfold addImport
  simp only [way]
  rw [bind_of_ok (ofExcept_eq_ok.mpr ⟨rfl, rfl⟩), bind_of_ok (get_eq_ok.mpr ⟨rfl, rfl⟩)]

theorem quiet_of_addImport_error {fault : Fault}
    (failed : addImport settings layout directory exportName naming strict before =
      .error fault after) : Quiet before after := by
  obtain ⟨path, way⟩ := exists_importPath settings.workingDirectory layout directory naming
  rw [addImport_of_way way] at failed
  exact quiet_of_place_error failed

theorem confined_of_addImport
    (done : addImport settings layout directory exportName naming strict before =
      .ok imported after) : Confined settings layout before after := by
  obtain ⟨path, way⟩ := exists_importPath settings.workingDirectory layout directory naming
  rw [addImport_of_way way] at done
  exact confined_of_place done

theorem addImport_eq_ok (names : Names settings layout directory naming specifier)
    (done : addImport settings layout directory exportName naming strict before =
      .ok imported after) (holds : Holds settings before.tree layout text) :
    imported = Text.hasLine (importLine specifier) text ∧ Quiet before after ∨
      imported = true ∧ Text.hasLine (importLine specifier) text = false ∧
        after.config = before.config ∧
        ∃ final, InsertedBelowImports
            (statement exportName specifier (!before.config.isSetUp)) text final ∧
          Holds settings after.tree layout final := by
  obtain ⟨⟨path, way, rfl⟩, plain⟩ := names
  rw [addImport_of_way way] at done
  have ended := place_eq_ok done holds
  rwa [head_visibleLines_statement plain] at ended

end FontScaffold.Layout
