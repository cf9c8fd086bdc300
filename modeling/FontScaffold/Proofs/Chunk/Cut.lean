import FontScaffold.Chunk
import FontScaffold.Proofs.Text.Basic

set_option autoImplicit false

namespace FontScaffold.Chunk

/-- The first separator of the chunk ends it. -/
def Closed (separator chunk : Text) : Prop :=
  ∃ before, Text.breakOn separator chunk = some (before, [])

/-- The chunk has no separator. -/
def Open (separator chunk : Text) : Prop :=
  Text.breakOn separator chunk = none

/-- Closed chunks and an open one at the end. -/
inductive Cut (separator : Text) : List Text → Prop where
  | last {chunk : Text} (isOpen : Open separator chunk) : Cut separator [chunk]
  | cons {chunk : Text} {rest : List Text} (closed : Closed separator chunk)
      (cut : Cut separator rest) : Cut separator (chunk :: rest)

theorem open_iff {separator chunk : Text} : Open separator chunk ↔ ¬separator <:+: chunk :=
  Text.breakOn_eq_none_iff

theorem Closed.eq_append {separator chunk : Text} (closed : Closed separator chunk) :
    ∃ before, chunk = before ++ separator := by
  obtain ⟨before, found⟩ := closed
  exact ⟨before, by simpa using Text.eq_append_of_breakOn found⟩

theorem Closed.isSuffix {separator chunk : Text} (closed : Closed separator chunk) :
    separator <:+ chunk := by
  obtain ⟨before, rfl⟩ := closed.eq_append
  exact List.suffix_append before separator

theorem Closed.not_open {separator chunk : Text} (closed : Closed separator chunk) :
    ¬Open separator chunk := by
  obtain ⟨before, found⟩ := closed
  simp [Open, found]

theorem Closed.ne_nil {separator chunk : Text} (nonempty : separator ≠ [])
    (closed : Closed separator chunk) : chunk ≠ [] := by
  obtain ⟨before, rfl⟩ := closed.eq_append
  simp [nonempty]

theorem open_nil {separator : Text} (nonempty : separator ≠ []) : Open separator [] := by
  simp [Open, Text.breakOn, nonempty]

theorem not_closed_of_breakOn {separator chunk before after : Text}
    (found : Text.breakOn separator chunk = some (before, after)) (more : after ≠ []) :
    ¬Closed separator chunk := by
  rintro ⟨other, same⟩
  rw [found] at same
  simp_all

theorem split_of_open {separator body : Text} (isOpen : Open separator body) :
    split separator body = [body] := by
  unfold split
  split
  · rfl
  · split
    · rfl
    · next found => simp [Open, found] at isOpen

theorem split_whole (body : Text) : split [] body = [body] := by
  rw [split, dif_pos rfl]

theorem split_of_breakOn {separator body before after : Text} (nonempty : separator ≠ [])
    (found : Text.breakOn separator body = some (before, after)) :
    split separator body = (before ++ separator) :: split separator after := by
  rw [split]
  simp only [nonempty, ↓reduceDIte]
  split
  · next absent => simp [found] at absent
  · next same =>
      rw [found] at same
      cases same
      rfl

theorem split_append_of_closed {separator chunk : Text} (nonempty : separator ≠ [])
    (closed : Closed separator chunk) (rest : Text) :
    split separator (chunk ++ rest) = chunk :: split separator rest := by
  obtain ⟨before, found⟩ := closed
  rw [split_of_breakOn nonempty (Text.breakOn_append rest found), List.nil_append]
  have whole := Text.eq_append_of_breakOn found
  rw [List.append_nil] at whole
  rw [← whole]

theorem split_flatten_append {separator : Text} (nonempty : separator ≠ []) {chunks : List Text}
    (closed : ∀ chunk ∈ chunks, Closed separator chunk) (rest : Text) :
    split separator (chunks.flatten ++ rest) = chunks ++ split separator rest := by
  induction chunks with
  | nil => rfl
  | cons chunk chunks ih =>
      rw [List.flatten_cons, List.append_assoc,
        split_append_of_closed nonempty (closed chunk List.mem_cons_self),
        ih fun other member => closed other (List.mem_cons_of_mem chunk member), List.cons_append]

theorem cut_split {separator : Text} (nonempty : separator ≠ []) (body : Text) :
    Cut separator (split separator body) := by
  fun_induction split separator body with
  | case1 body empty => exact (nonempty empty).elim
  | case2 body _ absent => exact .last absent
  | case3 body _ before after found _ ih => exact .cons ⟨before, Text.breakOn_drop_after found⟩ ih

theorem split_flatten {separator : Text} (nonempty : separator ≠ []) {chunks : List Text}
    (cut : Cut separator chunks) : split separator chunks.flatten = chunks := by
  induction cut with
  | last isOpen => simpa using split_of_open isOpen
  | cons closed _ ih => rw [List.flatten_cons, split_append_of_closed nonempty closed, ih]

theorem Cut.eq_append {separator : Text} {chunks : List Text} (cut : Cut separator chunks) :
    ∃ inner last, chunks = inner ++ [last] ∧ (∀ chunk ∈ inner, Closed separator chunk) ∧
      Open separator last := by
  induction cut with
  | @last chunk isOpen => exact ⟨[], chunk, rfl, by simp, isOpen⟩
  | @cons chunk rest closed _ ih =>
      obtain ⟨inner, last, rfl, innerClosed, isOpen⟩ := ih
      refine ⟨chunk :: inner, last, rfl, ?_, isOpen⟩
      intro other member
      rcases List.mem_cons.mp member with rfl | member
      · exact closed
      · exact innerClosed other member

theorem Cut.append {separator : Text} {inner : List Text} {last : Text}
    (closed : ∀ chunk ∈ inner, Closed separator chunk) (isOpen : Open separator last) :
    Cut separator (inner ++ [last]) := by
  induction inner with
  | nil => exact .last isOpen
  | cons chunk inner ih =>
      exact .cons (closed chunk List.mem_cons_self)
        (ih fun other member => closed other (List.mem_cons_of_mem chunk member))

/-- The separator stands at the end of the piece and nowhere before. -/
structure EndsFirst (separator piece : Text) : Prop where
  ends : separator <:+ piece
  first : ∀ before after, piece = before ++ separator ++ after → after = []

/-- All pieces but the last end at their first separator, and the last one has none. -/
structure Pieces (separator : Text) (pieces : List Text) : Prop where
  nonempty : pieces ≠ []
  inner : ∀ piece ∈ pieces.dropLast, EndsFirst separator piece
  last : ¬separator <:+: pieces.getLast nonempty

theorem closed_iff {separator piece : Text} :
    Closed separator piece ↔ EndsFirst separator piece := by
  constructor
  · intro closed
    refine ⟨closed.isSuffix, fun before after occurs => ?_⟩
    obtain ⟨front, found⟩ := closed
    -- Nothing is left behind the leftmost occurrence, so nothing is behind a later one.
    have bound := Text.length_le_of_breakOn found occurs
    have here := congrArg List.length (Text.eq_append_of_breakOn found)
    have there := congrArg List.length occurs
    simp only [List.length_append, List.length_nil] at here there
    exact List.eq_nil_of_length_eq_zero (by omega)
  · rintro ⟨⟨front, ends⟩, first⟩
    refine ⟨front, Text.breakOn_eq_some (by simp [ends]) fun before after occurs => ?_⟩
    rw [first before after occurs, List.append_nil, ← ends] at occurs
    exact Nat.le_of_eq (congrArg List.length (List.append_cancel_right occurs))

theorem cut_iff {separator : Text} {pieces : List Text} :
    Cut separator pieces ↔ Pieces separator pieces := by
  constructor
  · intro cut
    obtain ⟨inner, last, rfl, closed, isOpen⟩ := cut.eq_append
    refine ⟨by simp, ?_, ?_⟩
    · rw [List.dropLast_concat]
      exact fun piece member => closed_iff.mp (closed piece member)
    · rw [List.getLast_concat]
      exact open_iff.mp isOpen
  · rintro ⟨nonempty, inner, last⟩
    rw [← List.dropLast_concat_getLast nonempty]
    exact .append (fun piece member => closed_iff.mpr (inner piece member)) (open_iff.mpr last)

/-- The chunks of a text are the only pieces of this shape that join to it, and pieces of this shape
are found again when they are joined and cut. -/
theorem split_eq_iff_pieces {separator : Text} (nonempty : separator ≠ []) :
    (∀ body pieces, split separator body = pieces ↔
        pieces.flatten = body ∧ Pieces separator pieces) ∧
      ∀ pieces, Pieces separator pieces → split separator pieces.flatten = pieces := by
  have rejoined : ∀ pieces, Pieces separator pieces → split separator pieces.flatten = pieces :=
    fun pieces shape => split_flatten nonempty (cut_iff.mpr shape)
  refine ⟨fun body pieces => ⟨?_, ?_⟩, rejoined⟩
  · rintro rfl
    exact ⟨flatten_split separator body, cut_iff.mp (cut_split nonempty body)⟩
  · rintro ⟨rfl, shape⟩
    exact rejoined pieces shape

/-- The separator also stands across the two pieces, but that is no place to cut. -/
theorem overlapping_pieces :
    "aba".text ≠ [] ∧ Pieces "aba".text ["xaba".text, "baaba".text, []] ∧
      split "aba".text "xababaaba".text = ["xaba".text, "baaba".text, []] := by
  have nonempty : "aba".text ≠ [] := by decide
  have cut : split "aba".text "xababaaba".text = ["xaba".text, "baaba".text, []] := by
    decide +kernel
  obtain ⟨only, _⟩ := split_eq_iff_pieces nonempty
  exact ⟨nonempty, ((only _ _).mp cut).2, cut⟩

end FontScaffold.Chunk
