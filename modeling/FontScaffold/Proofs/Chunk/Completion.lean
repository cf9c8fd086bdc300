import FontScaffold.Proofs.Chunk.Cut

set_option autoImplicit false

namespace FontScaffold.Chunk

theorem overlap_le (separator chunk : Text) (limit : Nat) :
    overlap separator chunk limit ≤ limit := by
  induction limit with
  | zero => exact Nat.le_refl 0
  | succ limit ih =>
      rw [overlap]
      split
      · exact Nat.le_refl _
      · omega

theorem isSuffix_overlap (separator chunk : Text) (limit : Nat) :
    separator.take (overlap separator chunk limit) <:+ chunk := by
  induction limit with
  | zero => simp [overlap]
  | succ limit ih =>
      rw [overlap]
      split
      · next ends => exact List.isSuffixOf_iff_suffix.mp ends
      · exact ih

theorem le_overlap {separator chunk : Text} {size limit : Nat} (within : size ≤ limit)
    (ends : separator.take size <:+ chunk) : size ≤ overlap separator chunk limit := by
  induction limit with
  | zero => omega
  | succ limit ih =>
      rw [overlap]
      split
      · exact within
      · next other =>
          have different : size ≠ limit + 1 := by
            intro same
            subst same
            exact other (List.isSuffixOf_iff_suffix.mpr ends)
          exact ih (by omega)

theorem complete_eq_append (separator chunk : Text) :
    ∃ before, chunk = before ++ separator.take (overlap separator chunk separator.length) ∧
      complete separator chunk = before ++ separator := by
  obtain ⟨before, same⟩ := isSuffix_overlap separator chunk separator.length
  refine ⟨before, same.symm, ?_⟩
  calc
    complete separator chunk =
        (before ++ separator.take (overlap separator chunk separator.length)) ++
          separator.drop (overlap separator chunk separator.length) := by rw [same, complete]
    _ = before ++ separator := by rw [List.append_assoc, List.take_append_drop]

theorem isSuffix_complete (separator chunk : Text) : separator <:+ complete separator chunk := by
  obtain ⟨before, _, whole⟩ := complete_eq_append separator chunk
  rw [whole]
  exact List.suffix_append before separator

theorem isPrefix_complete (separator chunk : Text) : chunk <+: complete separator chunk :=
  List.prefix_append chunk _

theorem length_complete (separator chunk : Text) :
    (complete separator chunk).length + overlap separator chunk separator.length =
      chunk.length + separator.length := by
  have limit := overlap_le separator chunk separator.length
  rw [complete, List.length_append, List.length_drop]
  omega

/-- What chunk and separator share in a text that begins with one and ends with the other is a
beginning of the separator that ends the chunk. -/
theorem isSuffix_shared {separator chunk text : Text} (starts : chunk <+: text)
    (ends : separator <:+ text) :
    separator.take (chunk.length + separator.length - text.length) <:+ chunk := by
  obtain ⟨before, rfl⟩ := ends
  simp only [List.length_append, Nat.add_sub_add_right]
  by_cases apart : chunk.length ≤ before.length
  · rw [Nat.sub_eq_zero_of_le apart, List.take_zero]
    exact List.nil_suffix
  · obtain ⟨shared, rfl⟩ : before <+: chunk :=
      List.prefix_of_prefix_length_le (List.prefix_append before separator) starts (by omega)
    have begins : shared <+: separator := (List.prefix_append_right_inj before).mp starts
    rw [List.length_append, Nat.add_sub_cancel_left, ← List.prefix_iff_eq_take.mp begins]
    exact List.suffix_append before shared

theorem length_complete_le {separator chunk text : Text} (starts : chunk <+: text)
    (ends : separator <:+ text) : (complete separator chunk).length ≤ text.length := by
  have within : chunk.length + separator.length - text.length ≤ separator.length := by
    have short := starts.length_le
    omega
  have longest := le_overlap within (isSuffix_shared starts ends)
  have total := length_complete separator chunk
  omega

theorem complete_of_isSuffix {separator chunk : Text} (ends : separator <:+ chunk) :
    complete separator chunk = chunk := by
  have full : separator.length ≤ overlap separator chunk separator.length :=
    le_overlap (Nat.le_refl _) (by rwa [List.take_length])
  unfold complete
  rw [List.drop_eq_nil_of_le full, List.append_nil]

@[simp] theorem complete_complete (separator chunk : Text) :
    complete separator (complete separator chunk) = complete separator chunk :=
  complete_of_isSuffix (isSuffix_complete separator chunk)

theorem complete_of_fresh {separator chunk : Text}
    (fresh : ∀ size ≤ separator.length, 0 < size → ¬separator.take size <:+ chunk) :
    complete separator chunk = chunk ++ separator := by
  have none : overlap separator chunk separator.length = 0 := by
    apply Nat.eq_zero_of_not_pos
    intro some
    exact fresh _ (overlap_le _ _ _) some (isSuffix_overlap _ _ _)
  rw [complete, none, List.drop_zero]

theorem Closed.complete_eq {separator chunk : Text} (closed : Closed separator chunk) :
    complete separator chunk = chunk :=
  complete_of_isSuffix closed.isSuffix

theorem complete_ne_nil {separator : Text} (nonempty : separator ≠ []) (chunk : Text) :
    complete separator chunk ≠ [] := by
  intro empty
  have ends := isSuffix_complete separator chunk
  rw [empty] at ends
  exact nonempty (List.suffix_nil.mp ends)

theorem closed_complete {separator chunk : Text} (isOpen : Open separator chunk) :
    Closed separator (complete separator chunk) := by
  obtain ⟨before, completed⟩ := isSuffix_complete separator chunk
  refine ⟨before, Text.breakOn_eq_some (by simpa using completed.symm) ?_⟩
  intro first rest occurs
  have early : first ++ separator <+: complete separator chunk := ⟨rest, occurs.symm⟩
  -- What ends with an occurrence lies within the chunk, or it begins with the chunk and is not
  -- shorter than the completion.
  rcases List.prefix_or_prefix_of_prefix early (isPrefix_complete separator chunk) with
    inside | starts
  · exact (open_iff.mp isOpen
      ((List.suffix_append first separator).isInfix.trans inside.isInfix)).elim
  · have bound := length_complete_le starts (List.suffix_append first separator)
    rw [← completed, List.length_append, List.length_append] at bound
    omega

/-- What stands before the chunk has no part in its completion. -/
def Apart (separator chunk : Text) : Prop :=
  ∀ front, complete separator (front ++ chunk) = front ++ complete separator chunk

theorem apart_of_isSuffix {separator chunk : Text} (ends : separator <:+ chunk) :
    Apart separator chunk := by
  intro front
  rw [complete_of_isSuffix ends, complete_of_isSuffix (ends.trans (List.suffix_append front chunk))]

theorem apart_of_foreign {separator chunk : Text} {c : CodePoint} (member : c ∈ chunk)
    (foreign : c ∉ separator) : Apart separator chunk := by
  intro front
  have within : ∀ size, separator.take size <:+ front ++ chunk → separator.take size <:+ chunk := by
    intro size ends
    rcases List.suffix_or_suffix_of_suffix ends (List.suffix_append front chunk) with short | long
    · exact short
    · exact (foreign (List.mem_of_mem_take (long.subset member))).elim
  have same : overlap separator (front ++ chunk) separator.length =
      overlap separator chunk separator.length := by
    apply Nat.le_antisymm
    · exact le_overlap (overlap_le _ _ _) (within _ (isSuffix_overlap _ _ _))
    · exact le_overlap (overlap_le _ _ _)
        ((isSuffix_overlap _ _ _).trans (List.suffix_append front chunk))
  rw [complete, complete, same, List.append_assoc]

/-- The text begins with the chunk and ends with the separator. They may share a part of it. -/
structure Spans (separator chunk text : Text) : Prop where
  starts : chunk <+: text
  ends : separator <:+ text

/-- The text spans chunk and separator, and none that does is shorter. -/
structure Shortest (separator chunk text : Text) : Prop where
  spans : Spans separator chunk text
  least : ∀ other, Spans separator chunk other → text.length ≤ other.length

theorem spans_complete (separator chunk : Text) :
    Spans separator chunk (complete separator chunk) :=
  ⟨isPrefix_complete separator chunk, isSuffix_complete separator chunk⟩

/-- A text as short as the completion has no room for anything that is not of the chunk or of the
separator. -/
theorem Spans.eq_complete {separator chunk text : Text} (spans : Spans separator chunk text)
    (short : text.length ≤ (complete separator chunk).length) :
    text = complete separator chunk := by
  have least := length_complete_le spans.starts spans.ends
  have total := length_complete separator chunk
  obtain ⟨⟨more, rfl⟩, ends⟩ := spans
  rw [List.length_append] at short least
  have last : more <:+ separator :=
    List.suffix_of_suffix_length_le (List.suffix_append chunk more) ends (by omega)
  have size : separator.length - more.length = overlap separator chunk separator.length := by
    omega
  rw [complete, ← size, ← List.suffix_iff_eq_drop.mp last]

theorem eq_complete_iff {separator chunk text : Text} :
    text = complete separator chunk ↔ Shortest separator chunk text := by
  constructor
  · rintro rfl
    exact ⟨spans_complete separator chunk, fun other spans =>
      length_complete_le spans.starts spans.ends⟩
  · rintro ⟨spans, least⟩
    exact spans.eq_complete (least _ (spans_complete separator chunk))

theorem complete_eq_self_iff {separator chunk : Text} :
    complete separator chunk = chunk ↔ separator <:+ chunk := by
  constructor
  · intro same
    rw [← same]
    exact isSuffix_complete separator chunk
  · exact complete_of_isSuffix

/-- The separator ends the completion and stands nowhere before, unless it stands in the chunk
before its end. -/
theorem endsFirst_complete_iff {separator chunk : Text} :
    EndsFirst separator (complete separator chunk) ↔
      ¬separator <:+: chunk ∨ EndsFirst separator chunk := by
  constructor
  · intro once
    by_cases inside : separator <:+: chunk
    · obtain ⟨before, after, whole⟩ := inside
      have none := once.first before (after ++
        separator.drop (overlap separator chunk separator.length))
        (by rw [← List.append_assoc, whole, complete])
      have ends : separator <:+ chunk :=
        ⟨before, by rw [← whole, (List.append_eq_nil_iff.mp none).1, List.append_nil]⟩
      rw [complete_of_isSuffix ends] at once
      exact Or.inr once
    · exact Or.inl inside
  · rintro (absent | once)
    · exact closed_iff.mp (closed_complete (open_iff.mpr absent))
    · rwa [complete_of_isSuffix once.ends]

theorem split_of_closed {separator chunk : Text} (nonempty : separator ≠ [])
    (closed : Closed separator chunk) : split separator chunk = [chunk, []] := by
  have alone := split_append_of_closed nonempty closed []
  rwa [List.append_nil, split_of_open (open_nil nonempty)] at alone

/-- A completed chunk is the only shortest text that begins with the chunk and ends with the
separator: the chunk itself if it ends so already, and in any case one that is complete. In an
open chunk the separator comes up once, at the very end, and that is where a search from the left
cuts. -/
theorem completion_shortest (separator chunk : Text) :
    (∀ text, text = complete separator chunk ↔ Shortest separator chunk text) ∧
      (complete separator chunk = chunk ↔ separator <:+ chunk) ∧
      complete separator (complete separator chunk) = complete separator chunk ∧
      (EndsFirst separator (complete separator chunk) ↔
        ¬separator <:+: chunk ∨ EndsFirst separator chunk) ∧
      (¬separator <:+: chunk →
        split separator (complete separator chunk) = [complete separator chunk, []]) := by
  refine ⟨fun text => eq_complete_iff, complete_eq_self_iff, complete_complete separator chunk,
    endsFirst_complete_iff, fun absent => ?_⟩
  have nonempty : separator ≠ [] := by
    rintro rfl
    exact absent List.nil_infix
  exact split_of_closed nonempty (closed_complete (open_iff.mpr absent))

/-- Both "a" and "aba" begin the separator and end the chunk. Only the longer one may count: with
the shorter one the separator would also stand three characters before the end. -/
theorem overlapping_completion :
    ¬"abab".text <:+: "xaba".text ∧
      Shortest "abab".text "xaba".text "xabab".text ∧
      EndsFirst "abab".text "xabab".text ∧
      split "abab".text "xabab".text = ["xabab".text, []] := by
  have absent : ¬"abab".text <:+: "xaba".text := by decide
  have value : complete "abab".text "xaba".text = "xabab".text := by decide
  obtain ⟨shortest, _, _, once, cut⟩ := completion_shortest "abab".text "xaba".text
  rw [value] at once cut
  exact ⟨absent, (shortest _).mp value.symm, once.mpr (Or.inl absent), cut absent⟩

end FontScaffold.Chunk
