import FontScaffold.Proofs.Index.Canonical

set_option autoImplicit false

namespace FontScaffold.Chunk

theorem joinCrLf_append {front : Text} (plain : .char '\r' ∉ front) (rest : Text) :
    joinCrLf (front ++ rest) = front ++ joinCrLf rest := by
  induction front with
  | nil => rfl
  | cons c front ih =>
      rw [List.mem_cons, not_or] at plain
      rw [List.cons_append, joinCrLf, ih plain.2, List.cons_append]
      exact fun _ same => absurd same.symm plain.1

theorem words_concat (front : Text) {last : CodePoint} (noFeed : last ≠ .char '\n')
    (noReturn : last ≠ .char '\r') :
    words blankLine (front ++ [last]) =
    (marked (joinCrLf (front ++ [last]))).splitOn (.char ' ') := by
  have other : ¬blankLine.isSuffixOf (front ++ [last]) := by
    rw [List.isSuffixOf_iff_suffix]
    rintro ⟨before, same⟩
    have ends : before ++ [.char '\n'] ++ [.char '\n'] = front ++ [last] := by
      rw [← same, List.append_assoc]
      rfl
    exact noFeed (List.singleton_inj.mp (List.append_inj' ends rfl).2).symm
  have kept : Text.trimEnd (· == .char '\r') (front ++ [last]) = front ++ [last] :=
    Text.trimEnd_concat front (beq_eq_false_iff_ne.mpr noReturn)
  rw [words, dropSeparator, if_neg other, kept]
  rfl

end FontScaffold.Chunk

namespace FontScaffold.Index

open Chunk

def probeEnd : Text := " = localfont".text

/-- The tokens that a name gives its probe: what is left of the first two pieces of the name and of
what stands behind it. -/
def nameTokens (name : Text) : List Text :=
  tokensUpTo 2 blankLine (name ++ probeEnd)

/-- The probe for `name` finds the export of `other`: all that the name gives is in it, and that is
more than the words of every export. -/
def Finds (name other : Text) : Prop :=
  (∀ token ∈ nameTokens name, token ∈ exportWords other) ∧
    ∃ token ∈ nameTokens name, token = other ∨ token = "=".text

instance (name other : Text) : Decidable (Finds name other) :=
  inferInstanceAs (Decidable (_ ∧ _))

theorem word_of_mem_start : ∀ word ∈ ["export".text, "const".text], Word word := by
  intro word member
  exact @word_of_mem_exportWords [.char 'x'] (by decide) word
    (List.mem_append_left [[CodePoint.char 'x'], "=".text] member)

theorem words_probeEnd (front : Text) :
    words blankLine (front ++ probeEnd) =
    (marked (joinCrLf (front ++ probeEnd))).splitOn (.char ' ') := by
  have ends : probeEnd = probeEnd.dropLast ++ [.char 't'] := by decide
  rw [ends, ← List.append_assoc]
  exact words_concat _ (by decide) (by decide)

theorem words_exportProbe (name : Text) :
    words blankLine (exportProbe name) =
      ["export".text, "const".text] ++ words blankLine (name ++ probeEnd) := by
  have start : "export const ".text =
      ["export".text, "const".text].flatMap (· ++ [.char ' ']) := by decide
  have cut : exportProbe name = "export const ".text ++ (name ++ probeEnd) :=
    List.append_assoc _ _ _
  have whole : words blankLine (exportProbe name) =
      (marked (joinCrLf (exportProbe name))).splitOn (.char ' ') :=
    words_probeEnd ("export const ".text ++ name)
  rw [whole, words_probeEnd, cut, joinCrLf_append (by decide), marked_append,
    marked_of_not_mem (by decide), start, splitOn_leading word_of_mem_start]

theorem tokens_exportProbe (name : Text) :
    tokens blankLine (exportProbe name) =
      ["export".text, "const".text] ++ nameTokens name := by
  have first : takeInt wordLimit (words blankLine (exportProbe name)) =
      ["export".text, "const".text] ++ takeInt 2 (words blankLine (name ++ probeEnd)) := by
    rw [words_exportProbe]
    rfl
  rw [tokens, tokensUpTo, first, List.map_append, List.filter_append,
    trimmed_words word_of_mem_start, nameTokens, tokensUpTo]

section Finding

variable {name other chunk : Text}

theorem tokenSet_exportProbe (name : Text) :
    tokenSet blankLine (exportProbe name) =
      {"export".text, "const".text} ∪ (nameTokens name).toFinset := by
  rw [tokenSet, tokens_exportProbe, List.toFinset_append]
  rfl

theorem lineBreak_not_mem_exportWords (isName : IsName other) :
    lineBreak ∉ (exportWords other).toFinset := by
  simp only [exportWords, List.mem_toFinset, List.mem_cons, List.not_mem_nil, or_false, not_or]
  exact ⟨by decide, by decide, isName.ne_lineBreak.symm, by decide⟩

/-- Beside the words of every export there must be one more. -/
theorem three_le_card_iff (isName : IsName other)
    (within : ∀ token ∈ nameTokens name, token ∈ exportWords other) :
    3 ≤ (tokenSet blankLine (exportProbe name)).card ↔
      ∃ token ∈ nameTokens name, token = other ∨ token = "=".text := by
  have two : ({"export".text, "const".text} : Finset Text).card = 2 := by decide
  rw [tokenSet_exportProbe]
  constructor
  · intro many
    obtain ⟨token, member, fresh⟩ := Finset.exists_mem_notMem_of_card_lt_card
      (show ({"export".text, "const".text} : Finset Text).card <
        (({"export".text, "const".text} : Finset Text) ∪ (nameTokens name).toFinset).card by omega)
    have given := List.mem_toFinset.mp ((Finset.mem_union.mp member).resolve_left fresh)
    have word := within token given
    simp only [exportWords, List.mem_cons, List.not_mem_nil, or_false] at word
    simp only [Finset.mem_insert, Finset.mem_singleton, not_or] at fresh
    rcases word with isExport | isConst | isOther | isEquals
    · exact (fresh.1 isExport).elim
    · exact (fresh.2 isConst).elim
    · exact ⟨token, given, Or.inl isOther⟩
    · exact ⟨token, given, Or.inr isEquals⟩
  · rintro ⟨token, given, kind⟩
    have fresh : token ∉ ({"export".text, "const".text} : Finset Text) := by
      simp only [Finset.mem_insert, Finset.mem_singleton, not_or]
      rcases kind with rfl | rfl
      · exact ⟨isName.notExport, isName.notConst⟩
      · decide
    have bound : insert token ({"export".text, "const".text} : Finset Text) ⊆
        {"export".text, "const".text} ∪ (nameTokens name).toFinset :=
      Finset.insert_subset (Finset.mem_union_right _ (List.mem_toFinset.mpr given))
        Finset.subset_union_left
    have many := Finset.card_le_card bound
    rw [Finset.card_insert_of_notMem fresh, two] at many
    exact many

theorem accepts_exportProbe_iff (isName : IsName other) (exports : Exports other chunk) :
    Matcher.standard.accepts blankLine (exportProbe name) chunk ↔ Finds name other := by
  have within : tokenSet blankLine (exportProbe name) ⊆ (exportWords other).toFinset ↔
      ∀ token ∈ nameTokens name, token ∈ exportWords other := by
    have both : ({"export".text, "const".text} : Finset Text) ⊆
        (exportWords other).toFinset := by
      intro word member
      rw [List.mem_toFinset]
      simp only [Finset.mem_insert, Finset.mem_singleton] at member
      rcases member with rfl | rfl <;> simp [exportWords]
    rw [tokenSet_exportProbe, Finset.union_subset_iff, and_iff_right both]
    simp only [Finset.subset_iff, List.mem_toFinset]
  rw [Matcher.accepts_iff_alike, tokenSet_of_exports isName exports,
    alike_iff_of_four (card_exportWords isName) (lineBreak_not_mem_exportWords isName),
    within, Finds]
  exact and_congr_right (three_le_card_iff isName)

theorem not_accepts_exportProbe (name : Text) {word : Text}
    (own : word ∈ ({"export".text, "const".text} : Finset Text))
    (four : (tokenSet blankLine chunk).card = 4) (lacks : word ∉ tokenSet blankLine chunk) :
    ¬Matcher.standard.accepts blankLine (exportProbe name) chunk := by
  rw [Matcher.accepts_iff_alike, tokenSet_exportProbe]
  exact fun alike => lacks (alike.subset four (Finset.mem_union_left _ own))

theorem not_accepts_exportProbe_lists (name : Text) (lists : Lists chunk) :
    ¬Matcher.standard.accepts blankLine (exportProbe name) chunk := by
  apply not_accepts_exportProbe name (show "const".text ∈ _ by decide) (card_of_lists lists)
  rw [tokenSet_of_lists lists]
  decide

theorem not_accepts_exportProbe_heading (name : Text) :
    ¬Matcher.standard.accepts blankLine (exportProbe name) (defaultImport ++ blankLine) := by
  apply not_accepts_exportProbe name (show "export".text ∈ _ by decide) <;>
    rw [tokenSet_heading]
  · exact card_headingWords
  · decide

/-- In an index in canonical form, a probe matches something exactly if it finds one of the
fonts. -/
theorem refused_by_exportProbe_iff {cwd directory : Text} {written : Text → List Font}
    {fonts listed middle : List Text}
    (laid : Laid cwd directory (defaultImport ++ blankLine) written fonts listed middle) :
    (∀ chunk ∈ split blankLine (laidText (defaultImport ++ blankLine) middle listed),
        ¬Matcher.standard.accepts blankLine (exportProbe name) chunk) ↔
      ∀ font ∈ fonts, ¬Finds name font := by
  have lists := not_accepts_exportProbe_lists name (lists_defaultExport laid.identifiers)
  rw [laid.split_eq]
  constructor
  · intro refused font member finds
    obtain ⟨chunk, inside, stands⟩ := exists_of_mem_forall₂ laid.exports.flip member
    refine refused chunk ?_
      ((accepts_exportProbe_iff (laid.names font member) stands.1.1).mpr finds)
    exact List.mem_append_left _ (List.mem_cons_of_mem _ inside)
  · intro none chunk member accepted
    rcases List.mem_append.mp member with early | last
    · rcases List.mem_cons.mp early with rfl | inside
      · exact not_accepts_exportProbe_heading name accepted
      · obtain ⟨font, known, isName, exports⟩ := laid.exports_of_mem inside
        exact none font known ((accepts_exportProbe_iff isName exports).mp accepted)
    · rw [List.mem_singleton.mp last] at accepted
      exact lists accepted

end Finding

end FontScaffold.Index
