import FontScaffold.Proofs.Index.Stable

set_option autoImplicit false

namespace FontScaffold.Index

open Chunk Merge

/-- A closed chunk that no declaration matches. -/
structure Foreign (chunk : Text) : Prop where
  closed : Closed blankLine chunk
  exports : ∀ name other, IsName name → Exports name other →
    Matcher.standard.accepts blankLine other chunk = false
  lists : ∀ other, Lists other → Matcher.standard.accepts blankLine other chunk = false

/-- The fonts last written for each name, after the families were written. -/
def record (families : List Family) (written : Text → List Font) (name : Text) : List Font :=
  match families.find? fun family => family.name = name with
  | some family => family.fonts
  | none => written name

/-- The chunk is the export of a name with its fonts, a blank line behind it. -/
def Stands (cwd directory : Text) (written : Text → List Font) (name chunk : Text) : Prop :=
  Shows cwd directory ⟨name, written name⟩ chunk ∧ Closed blankLine chunk

/-- A heading, a closed export for each name with the fonts last written, and a default export. -/
structure Laid (cwd directory heading : Text) (written : Text → List Font)
    (fonts listed : List Text)
    (middle : List Text) : Prop where
  foreign : Foreign heading
  names : ∀ name ∈ fonts, IsName name
  distinct : fonts.Nodup
  exports : List.Forall₂ (Stands cwd directory written) fonts middle
  identifiers : ∀ name ∈ listed, isIdentifier name

def laidText (heading : Text) (middle listed : List Text) : Text :=
  (heading :: middle ++ [defaultExport listed]).flatten

section Matching

variable {name other first second : Text}

theorem accepts_exports_eq (isName : IsName name) (another : IsName other)
    (left : Exports name first) (right : Exports other second) :
    Matcher.standard.accepts blankLine first second = decide (name = other) := by
  rw [Bool.eq_iff_iff, decide_eq_true_iff]
  exact accepts_exports_iff isName another left right

end Matching

variable {cwd directory heading : Text} {written : Text → List Font} {fonts listed : List Text}
  {middle : List Text} {families : List Family}

namespace Laid

theorem closed (laid : Laid cwd directory heading written fonts listed middle) :
    ∀ chunk ∈ heading :: middle, Closed blankLine chunk := by
  intro chunk member
  rcases List.mem_cons.mp member with rfl | member
  · exact laid.foreign.closed
  · obtain ⟨_, _, stands⟩ := exists_of_mem_forall₂ laid.exports member
    exact stands.2

theorem isOpen (laid : Laid cwd directory heading written fonts listed middle) :
    Open blankLine (defaultExport listed) := by
  rw [defaultExport_eq]
  exact (block_listBody laid.identifiers).open_line

theorem cut (laid : Laid cwd directory heading written fonts listed middle) :
    Cut blankLine (heading :: middle ++ [defaultExport listed]) :=
  Cut.append laid.closed laid.isOpen

theorem split_eq (laid : Laid cwd directory heading written fonts listed middle) :
    split blankLine (laidText heading middle listed) =
      heading :: middle ++ [defaultExport listed] :=
  split_flatten blankLine_ne_nil laid.cut

theorem exports_of_mem (laid : Laid cwd directory heading written fonts listed middle)
    {chunk : Text} (member : chunk ∈ middle) :
    ∃ name ∈ fonts, IsName name ∧ Exports name chunk := by
  obtain ⟨name, inside, stands⟩ := exists_of_mem_forall₂ laid.exports member
  exact ⟨name, inside, laid.names name inside, stands.1.1⟩

theorem pairwise (laid : Laid cwd directory heading written fonts listed middle) :
    middle.Pairwise ExportsApart :=
  pairwise_exports (laid.exports.imp fun _ _ stands => stands.1.1) laid.names laid.distinct

theorem nodup (laid : Laid cwd directory heading written fonts listed middle) :
    (heading :: middle ++ [defaultExport listed]).Nodup := by
  have open_ : defaultExport listed ∉ heading :: middle :=
    fun member => (laid.closed _ member).not_open laid.isOpen
  have alone : heading ∉ middle := by
    intro member
    obtain ⟨name, _, isName, exports⟩ := laid.exports_of_mem member
    have refused := laid.foreign.exports name heading isName exports
    rw [accepts_exports_eq isName isName exports exports, decide_eq_true rfl] at refused
    cases refused
  have separate : middle.Nodup := by
    refine laid.pairwise.imp ?_
    rintro first second ⟨name, other, isName, another, different, left, right⟩ rfl
    have refused := accepts_exports_eq isName another left right
    rw [accepts_exports_eq isName isName left left, decide_eq_true rfl,
      decide_eq_false different] at refused
    cases refused
  rw [List.nodup_append]
  refine ⟨List.nodup_cons.mpr ⟨alone, separate⟩, List.nodup_singleton _, ?_⟩
  intro chunk member last only same
  rw [List.mem_singleton.mp only] at same
  exact open_ (same ▸ member)

theorem eraseDups_eq (laid : Laid cwd directory heading written fonts listed middle) :
    (heading :: middle ++ [defaultExport listed]).eraseDups =
      heading :: middle ++ [defaultExport listed] :=
  FirstOccurrences.eraseDups_of_nodup laid.nodup

end Laid

section Text

/-- The text of an index in canonical form, as it is rendered. -/
def canonicalText (settings : Settings) (directory : Text) (written : Text → List Font)
    (fonts : List Text) : Except Misuse Text := do
  let named ← fonts.mapM fun name =>
    namedExport settings.workingDirectory directory ⟨name, written name⟩
  return settings.loaderImport ++ blankLine ++ named.flatMap (· ++ [.char '\n']) ++
    defaultExport fonts

theorem exists_named_of_stands
    (exports : List.Forall₂ (Stands cwd directory written) fonts middle) :
    ∃ named, fonts.mapM (fun name => namedExport cwd directory ⟨name, written name⟩) = .ok named ∧
      middle = named.map (· ++ [.char '\n']) := by
  induction exports with
  | nil => exact ⟨[], rfl, rfl⟩
  | @cons name chunk fonts middle here _ ih =>
      obtain ⟨named, rest, same⟩ := ih
      obtain ⟨⟨_, text, rendered, copy⟩, closed⟩ := here
      rw [closed.complete_eq] at copy
      refine ⟨text :: named, ?_, by rw [copy, same, List.map_cons]⟩
      rw [List.mapM_cons, bind_eq_ok]
      refine ⟨text, rendered, ?_⟩
      rw [bind_eq_ok]
      exact ⟨named, rest, rfl⟩

theorem canonicalText_of_laid {settings : Settings}
    (laid : Laid settings.workingDirectory directory (settings.loaderImport ++ blankLine) written
      fonts fonts middle) :
    canonicalText settings directory written fonts =
      .ok (laidText (settings.loaderImport ++ blankLine) middle fonts) := by
  obtain ⟨named, rendered, rfl⟩ := exists_named_of_stands laid.exports
  unfold canonicalText
  rw [bind_eq_ok]
  refine ⟨named, rendered, ?_⟩
  unfold laidText
  rw [List.flatten_append, List.flatten_cons, List.flatten_singleton, ← List.flatMap_def]
  rfl

end Text

section Heading

def defaultImport : Text := "import localfont from \"next/font/local\"".text

theorem block_defaultImport : Block defaultImport where
  isOpen := open_blankLine_of_not_mem (by decide)
  ends := ⟨defaultImport.dropLast, .char '"', by decide, by decide⟩
  noReturn := by decide

/-- The words of the import, as many as are looked at. -/
def headingWords : List Text :=
  ["import".text, "localfont".text, "from".text, "\"next/font/local\"".text]

theorem tokenSet_of_heading {chunk : Text}
    (copy : complete blankLine chunk = complete blankLine (defaultImport ++ [.char '\n'])) :
    tokenSet blankLine chunk = headingWords.toFinset := by
  rw [block_defaultImport.complete_line] at copy
  rcases eq_of_complete_eq copy with rfl | rfl | rfl <;> decide +kernel

theorem tokenSet_heading :
    tokenSet blankLine (defaultImport ++ blankLine) = headingWords.toFinset :=
  tokenSet_of_heading (block_defaultImport.complete_append_blankLine.trans
    block_defaultImport.complete_line.symm)

theorem card_headingWords : headingWords.toFinset.card = 4 := by
  decide +kernel

/-- The import does not export anything. -/
theorem foreign_heading : Foreign (defaultImport ++ blankLine) where
  closed := block_defaultImport.closed
  exports := by
    intro name chunk isName exports
    rw [Bool.eq_false_iff, ne_eq, Matcher.accepts_iff_alike, tokenSet_of_exports isName exports,
      tokenSet_heading]
    intro alike
    have inside := alike.subset card_headingWords
      (show "export".text ∈ (exportWords name).toFinset by simp [exportWords])
    exact absurd inside (by decide)
  lists := by
    intro chunk lists
    rw [Bool.eq_false_iff, ne_eq, Matcher.accepts_iff_alike, tokenSet_of_lists lists,
      tokenSet_heading]
    intro alike
    exact absurd (alike.subset card_headingWords) (by decide)

end Heading

end FontScaffold.Index
