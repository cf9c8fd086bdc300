import FontScaffold.Proofs.Chunk.Completion
import FontScaffold.Proofs.FirstOccurrences

set_option autoImplicit false

namespace FontScaffold.Chunk

/-- A chunk as a cut gives it, closed or open. -/
def Whole (separator chunk : Text) : Prop :=
  Closed separator chunk ∨ Open separator chunk

theorem Whole.closed_complete {separator chunk : Text} (whole : Whole separator chunk) :
    Closed separator (complete separator chunk) := by
  rcases whole with closed | isOpen
  · rwa [closed.complete_eq]
  · exact Chunk.closed_complete isOpen

theorem Cut.whole {separator : Text} {chunks : List Text} (cut : Cut separator chunks)
    {chunk : Text} (member : chunk ∈ chunks) : Whole separator chunk := by
  induction cut with
  | last isOpen =>
      rw [List.mem_singleton] at member
      exact Or.inr (member ▸ isOpen)
  | cons closed _ ih =>
      rcases List.mem_cons.mp member with rfl | member
      · exact Or.inl closed
      · exact ih member

theorem not_whole_append {separator chunk rest : Text} (closed : Closed separator chunk)
    (some : rest ≠ []) : ¬Whole separator (chunk ++ rest) := by
  obtain ⟨before, found⟩ := closed
  have longer := Text.breakOn_append rest found
  rintro (closed | isOpen)
  · exact not_closed_of_breakOn longer some closed
  · rw [Open, longer] at isOpen
    cases isOpen

/-- All but the last of the chunks that a part of a cut picks are closed. -/
theorem Cut.closed_of_sublist {separator : Text} {chunks inner : List Text} {last : Text}
    (cut : Cut separator chunks) (part : (inner ++ [last]).Sublist chunks) :
    ∀ chunk ∈ inner, Closed separator chunk := by
  obtain ⟨closedPart, openChunk, rfl, closed, _⟩ := cut.eq_append
  obtain ⟨first, second, same, fromClosed, fromOpen⟩ := List.sublist_append_iff.mp part
  intro chunk member
  have length := fromOpen.length_le
  rcases List.eq_nil_or_concat' second with rfl | ⟨front, tail, rfl⟩
  · rw [List.append_nil] at same
    rw [← same] at fromClosed
    exact closed chunk (fromClosed.subset (List.mem_append_left _ member))
  · have empty : front = [] := by
      apply List.eq_nil_of_length_eq_zero
      simp only [List.length_append, List.length_singleton] at length
      omega
    subst empty
    obtain ⟨rfl, _⟩ := List.append_inj' same (by simp)
    exact closed chunk (fromClosed.subset member)

theorem completeInner_cons (separator chunk : Text) {rest : List Text} (some : rest ≠ []) :
    completeInner separator (chunk :: rest) =
      complete separator chunk :: completeInner separator rest := by
  cases rest with
  | nil => exact (some rfl).elim
  | cons next rest => rfl

theorem completeInner_append_cons (separator : Text) (front : List Text) (chunk : Text)
    (back : List Text) :
    completeInner separator (front ++ chunk :: back) =
      front.map (complete separator) ++ completeInner separator (chunk :: back) := by
  induction front with
  | nil => rfl
  | cons first front ih =>
      rw [List.cons_append, completeInner_cons separator first (by simp), ih]
      rfl

theorem completeInner_append_singleton (separator : Text) (inner : List Text) (last : Text) :
    completeInner separator (inner ++ [last]) = inner.map (complete separator) ++ [last] :=
  completeInner_append_cons separator inner last []

theorem completeInner_insert (separator : Text) (more : List Text) {chunks : List Text}
    {position : Nat} (inside : position < chunks.length) :
    completeInner separator (chunks.take position ++ more ++ chunks.drop position) =
      (completeInner separator chunks).take position ++ more.map (complete separator) ++
        (completeInner separator chunks).drop position := by
  obtain ⟨front, chunk, back, rfl, rfl⟩ : ∃ front chunk back,
      chunks = front ++ chunk :: back ∧ position = front.length := by
    refine ⟨chunks.take position, chunks[position], chunks.drop (position + 1), ?_, ?_⟩
    · rw [← List.drop_eq_getElem_cons inside, List.take_append_drop]
    · rw [List.length_take, Nat.min_eq_left (Nat.le_of_lt inside)]
  have size : front.length = (front.map (complete separator)).length := (List.length_map _).symm
  rw [List.take_left, List.drop_left, completeInner_append_cons, completeInner_append_cons,
    List.map_append, size, List.take_left, List.drop_left]

theorem getElem?_completeInner (separator : Text) (chunks : List Text) (index : Nat) :
    (completeInner separator chunks)[index]? = chunks[index]?.map fun chunk =>
      if index + 1 < chunks.length then complete separator chunk else chunk := by
  induction chunks generalizing index with
  | nil => rfl
  | cons first rest ih =>
      by_cases last : rest = []
      · subst last
        cases index <;> simp [completeInner]
      · have some := List.length_pos_iff.mpr last
        rw [completeInner_cons separator first last]
        cases index with
        | zero => simp [some]
        | succ index => simp [ih]

@[simp] theorem length_completeInner (separator : Text) (chunks : List Text) :
    (completeInner separator chunks).length = chunks.length := by
  rcases List.eq_nil_or_concat' chunks with rfl | ⟨inner, last, rfl⟩
  · rfl
  · simp [completeInner_append_singleton]

theorem completeInner_of_closed {separator : Text} {inner : List Text} (last : Text)
    (closed : ∀ chunk ∈ inner, Closed separator chunk) :
    completeInner separator (inner ++ [last]) = inner ++ [last] := by
  rw [completeInner_append_singleton]
  congr 1
  calc
    inner.map (complete separator) = inner.map id := by
      apply List.map_congr_left
      intro chunk member
      exact (closed chunk member).complete_eq
    _ = inner := List.map_id inner

theorem closed_of_sublist_split {separator body : Text} {inner : List Text} {last : Text}
    (picked : (inner ++ [last]).Sublist (split separator body)) :
    ∀ chunk ∈ inner, Closed separator chunk := by
  by_cases empty : separator = []
  · have whole : split separator body = [body] := by simp [split, empty]
    have length := picked.length_le
    rw [whole, List.length_append, List.length_singleton, List.length_singleton] at length
    have none : inner = [] := List.eq_nil_of_length_eq_zero (by omega)
    simp [none]
  · exact (cut_split empty body).closed_of_sublist picked

theorem completeInner_of_sublist {separator body : Text} {part : List Text}
    (picked : part.Sublist (split separator body)) : completeInner separator part = part := by
  rcases List.eq_nil_or_concat' part with rfl | ⟨inner, last, rfl⟩
  · rfl
  · exact completeInner_of_closed last (closed_of_sublist_split picked)

theorem completeInner_split (separator body : Text) :
    completeInner separator (split separator body) = split separator body :=
  completeInner_of_sublist (List.Sublist.refl _)

theorem complete_head {separator chunk : Text} {rest : List Text}
    (same : completeInner separator (chunk :: rest) = chunk :: rest) (some : rest ≠ []) :
    complete separator chunk = chunk := by
  rw [completeInner_cons separator chunk some] at same
  exact List.head_eq_of_cons_eq same

theorem complete_of_mem_front {separator chunk : Text} {front back : List Text}
    (same : completeInner separator (front ++ chunk :: back) = front ++ chunk :: back)
    {other : Text} (member : other ∈ front) : complete separator other = other := by
  rw [completeInner_append_cons] at same
  have fixed := (List.append_inj same (List.length_map _)).1
  obtain ⟨index, inside, rfl⟩ := List.getElem_of_mem member
  have there := List.getElem_of_eq fixed (by simpa using inside)
  rwa [List.getElem_map] at there

theorem completeInner_tail {separator chunk : Text} {rest : List Text}
    (same : completeInner separator (chunk :: rest) = chunk :: rest) :
    completeInner separator rest = rest := by
  by_cases last : rest = []
  · rw [last]
    rfl
  · rw [completeInner_cons separator chunk last] at same
    exact List.tail_eq_of_cons_eq same

theorem closed_of_mem_eraseDups {separator : Text} {chunks : List Text}
    (closed : ∀ chunk ∈ chunks, Closed separator chunk) :
    ∀ chunk ∈ chunks.eraseDups, Closed separator chunk :=
  fun chunk member => closed chunk (List.mem_eraseDups.mp member)

/-- The chunks that follow the closed ones when a text is cut that ends with `last`. -/
inductive Ending (separator last : Text) : List Text → Prop where
  | isOpen (isOpen : Open separator last) : Ending separator last []
  | isClosed (closed : Closed separator last) : Ending separator last [[]]

theorem split_close {separator : Text} (nonempty : separator ≠ []) {inner : List Text}
    {last : Text} (inside : ∀ chunk ∈ inner, Whole separator chunk)
    (atEnd : Whole separator last) :
    ∃ ending, Ending separator last ending ∧
      split separator (close separator (inner ++ [last])).flatten =
        close separator (inner ++ [last]) ++ ending := by
  have closed : ∀ chunk ∈ inner.map (complete separator), Closed separator chunk := by
    intro chunk member
    obtain ⟨other, otherMember, rfl⟩ := List.mem_map.mp member
    exact (inside other otherMember).closed_complete
  unfold close
  rw [completeInner_append_singleton]
  rcases atEnd with lastClosed | isOpen
  · refine ⟨[[]], .isClosed lastClosed, ?_⟩
    have allClosed : ∀ chunk ∈ inner.map (complete separator) ++ [last],
        Closed separator chunk := by
      intro chunk member
      rcases List.mem_append.mp member with member | member
      · exact closed chunk member
      · rw [List.mem_singleton.mp member]
        exact lastClosed
    have cut := split_flatten_append nonempty (closed_of_mem_eraseDups allClosed) []
    rwa [List.append_nil, split_of_open (open_nil nonempty)] at cut
  · refine ⟨[], .isOpen isOpen, ?_⟩
    have fresh : last ∉ inner.map (complete separator) :=
      fun member => (closed last member).not_open isOpen
    rw [FirstOccurrences.eraseDups_concat fresh, List.append_nil]
    exact split_flatten nonempty (Cut.append (closed_of_mem_eraseDups closed) isOpen)

theorem close_of_sublist {separator body : Text} {part : List Text}
    (picked : part.Sublist (split separator body)) : close separator part = part.eraseDups := by
  rw [close, completeInner_of_sublist picked]

/-- What is picked from the chunks of a text comes back when it is joined and cut again, with an
empty chunk behind it if the last one picked has a separator. -/
theorem split_flatten_of_sublist {separator body : Text} {part : List Text}
    (picked : part.Sublist (split separator body)) :
    split separator part.flatten = part ∨
      [] ∉ part ∧ split separator part.flatten = part ++ [[]] := by
  by_cases empty : separator = []
  · have whole : ∀ text, split separator text = [text] := fun text => by simp [split, empty]
    rw [whole body] at picked
    rcases List.sublist_singleton.mp picked with rfl | rfl
    · exact Or.inr ⟨List.not_mem_nil, whole []⟩
    · exact Or.inl (by simp [whole])
  have none := split_of_open (open_nil empty)
  rcases List.eq_nil_or_concat' part with rfl | ⟨inner, last, rfl⟩
  · exact Or.inr ⟨List.not_mem_nil, none⟩
  have closed := closed_of_sublist_split picked
  have inside := picked.subset (List.mem_append_right inner List.mem_cons_self)
  rcases (cut_split empty body).whole inside with lastClosed | isOpen
  · have allClosed : ∀ chunk ∈ inner ++ [last], Closed separator chunk := by
      intro chunk member
      rcases List.mem_append.mp member with before | atEnd
      · exact closed chunk before
      · rw [List.mem_singleton.mp atEnd]
        exact lastClosed
    have cut := split_flatten_append empty allClosed []
    rw [List.append_nil, none] at cut
    exact Or.inr ⟨fun member => (allClosed [] member).ne_nil empty rfl, cut⟩
  · exact Or.inl (split_flatten empty (Cut.append closed isOpen))

theorem flatten_eraseDups_split_iff (separator body : Text) :
    (split separator body).eraseDups.flatten = body ↔ (split separator body).Nodup := by
  constructor
  · intro same
    have cut := split_flatten_of_sublist
      (FirstOccurrences.eraseDups_sublist (split separator body))
    rw [same] at cut
    rcases cut with kept | ⟨visible, longer⟩
    · rw [kept]
      exact FirstOccurrences.nodup_eraseDups _
    · refine (visible ?_).elim
      rw [List.mem_eraseDups, longer]
      exact List.mem_append_right _ List.mem_cons_self
  · intro distinct
    rw [FirstOccurrences.eraseDups_of_nodup distinct, flatten_split]

theorem dropSeparator_append (separator before : Text) :
    dropSeparator separator (before ++ separator) = before := by
  have ends : separator.isSuffixOf (before ++ separator) :=
    List.isSuffixOf_iff_suffix.mpr (List.suffix_append before separator)
  simp [dropSeparator, ends]

theorem dropSeparator_of_open {separator chunk : Text} (isOpen : Open separator chunk) :
    dropSeparator separator chunk = chunk := by
  have other : ¬separator.isSuffixOf chunk := by
    intro ends
    exact open_iff.mp isOpen (List.isSuffixOf_iff_suffix.mp ends).isInfix
  simp [dropSeparator, other]

theorem tokens_congr {separator chunk other : Text}
    (same : dropSeparator separator chunk = dropSeparator separator other) :
    tokens separator chunk = tokens separator other := by
  simp only [tokens, tokensUpTo, words, same]

section Mark

variable {mark : CodePoint} {chunk : Text}

theorem open_mark_iff : Open [mark] chunk ↔ mark ∉ chunk := by
  rw [open_iff]
  constructor
  · intro absent member
    obtain ⟨before, after, rfl⟩ := List.append_of_mem member
    exact absent ⟨before, after, by simp⟩
  · rintro absent ⟨before, after, rfl⟩
    simp at absent

theorem Closed.eq_bare (closed : Closed [mark] chunk) :
    chunk = dropSeparator [mark] chunk ++ [mark] ∧ mark ∉ dropSeparator [mark] chunk := by
  obtain ⟨before, found⟩ := closed
  have whole := Text.eq_append_of_breakOn found
  rw [List.append_nil] at whole
  have bare : dropSeparator [mark] chunk = before := by rw [whole, dropSeparator_append]
  rw [bare]
  refine ⟨whole, fun member => ?_⟩
  obtain ⟨first, rest, rfl⟩ := List.append_of_mem member
  have earlier : chunk = first ++ [mark] ++ (rest ++ [mark]) := by simp [whole]
  have bound := Text.length_le_of_breakOn found earlier
  simp only [List.length_append, List.length_cons] at bound
  omega

theorem Whole.not_mem_bare (whole : Whole [mark] chunk) : mark ∉ dropSeparator [mark] chunk := by
  rcases whole with closed | isOpen
  · exact closed.eq_bare.2
  · rw [dropSeparator_of_open isOpen]
    exact open_mark_iff.mp isOpen

theorem dropSeparator_bare (whole : Whole [mark] chunk) :
    dropSeparator [mark] (dropSeparator [mark] chunk) = dropSeparator [mark] chunk :=
  dropSeparator_of_open (open_mark_iff.mpr whole.not_mem_bare)

theorem complete_mark (whole : Whole [mark] chunk) :
    complete [mark] chunk = dropSeparator [mark] chunk ++ [mark] := by
  rcases whole with closed | isOpen
  · rw [closed.complete_eq]
    exact closed.eq_bare.1
  · have other : ¬[mark] <:+ chunk := by
      intro ends
      exact open_mark_iff.mp isOpen (ends.subset List.mem_cons_self)
    have none : overlap [mark] chunk 1 = 0 := by
      simp [overlap, List.isSuffixOf_iff_suffix, other]
    simp [complete, none, dropSeparator_of_open isOpen]

theorem dropSeparator_complete (whole : Whole [mark] chunk) :
    dropSeparator [mark] (complete [mark] chunk) = dropSeparator [mark] chunk := by
  rw [complete_mark whole, dropSeparator_append]

theorem apart_mark (whole : Whole [mark] chunk) (some : chunk ≠ []) : Apart [mark] chunk := by
  rcases whole with closed | isOpen
  · exact apart_of_isSuffix closed.isSuffix
  · obtain ⟨c, rest, rfl⟩ := List.exists_cons_of_ne_nil some
    apply apart_of_foreign List.mem_cons_self
    rw [List.mem_singleton]
    intro same
    subst same
    exact open_mark_iff.mp isOpen List.mem_cons_self

end Mark

end FontScaffold.Chunk
