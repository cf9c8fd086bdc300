import FontScaffold.Proofs.Chunk.Match
import FontScaffold.Proofs.Merge.Record

set_option autoImplicit false

namespace FontScaffold.Merge

section Cut

variable (matcher : Matcher) (separator existing new : Text)

/-- The chunk, as it is or completed, is a chunk of the merged text. -/
def Found (chunk : Text) : Prop :=
  chunk ∈ Chunk.split separator (merge matcher separator existing new).content ∨
    Chunk.complete separator chunk ∈
      Chunk.split separator (merge matcher separator existing new).content

/-- Cut again, the merged text has every chunk that was kept, that replaced another or that was
added; in all, it has the closed chunks of the updated sequence with the additions in their
place. -/
structure Recut : Prop where
  placed : ∀ chunk, Placed matcher separator existing new chunk →
    Found matcher separator existing new chunk
  added : ∀ index ∈ (merge matcher separator existing new).added, ∀ chunk,
    (Chunk.split separator new)[index]? = some chunk → Found matcher separator existing new chunk
  whole : ∃ last ending, (updated matcher separator existing new).getLast? = some last ∧
    Chunk.Ending separator last ending ∧
    Chunk.split separator (merge matcher separator existing new).content =
      Chunk.close separator (spliced (additions matcher separator existing new)
        (updated matcher separator existing new)) ++ ending

end Cut

section Recut

variable {matcher : Matcher} {separator existing new : Text}

theorem mem_completeInner_or {chunks : List Text} {chunk : Text} (member : chunk ∈ chunks) :
    chunk ∈ Chunk.completeInner separator chunks ∨
      Chunk.complete separator chunk ∈ Chunk.completeInner separator chunks := by
  rcases List.eq_nil_or_concat' chunks with rfl | ⟨inner, last, rfl⟩
  · cases member
  rcases List.mem_append.mp member with inside | atEnd
  · exact Or.inr (mem_completeInner_append.mpr (Or.inl ⟨chunk, inside, rfl⟩))
  · exact Or.inl (mem_completeInner_append.mpr (Or.inr (List.mem_singleton.mp atEnd)))

theorem recut_of_closesEach (nonempty : separator ≠ [])
    (closes : ClosesEach separator (additions matcher separator existing new)) :
    Recut matcher separator existing new := by
  obtain ⟨last, ending, atEnd, isEnding, cut⟩ :=
    @split_close_spliced matcher separator existing new nonempty
  rw [← (content_merge_iff nonempty).mpr closes] at cut
  have found : ∀ chunk, chunk ∈ Chunk.close separator (spliced
      (additions matcher separator existing new) (updated matcher separator existing new)) →
      chunk ∈ Chunk.split separator (merge matcher separator existing new).content := by
    intro chunk member
    rw [cut]
    exact List.mem_append_left ending member
  refine ⟨?_, ?_, last, ending, atEnd, isEnding, cut⟩
  · intro chunk placed
    rcases mem_completeInner_or (mem_updated_iff.mpr placed) with same | completed
    · exact Or.inl (found chunk (mem_close_spliced (Or.inl same)))
    · exact Or.inr (found _ (mem_close_spliced (Or.inl completed)))
  · intro index recorded chunk there
    have member : (⟨chunk, index⟩ : NewChunk) ∈ newChunks separator new :=
      mem_newChunks_iff.mpr there
    have added := (mem_added_iff member).mp recorded
    exact Or.inr (found _ (mem_close_spliced (Or.inr ⟨_, added, rfl⟩)))

theorem Recut.closesEach (nonempty : separator ≠ [])
    (recut : Recut matcher separator existing new) :
    ClosesEach separator (additions matcher separator existing new) := by
  obtain ⟨last, ending, _, isEnding, cut⟩ := recut.whole
  have nothing : ending.flatten = [] := by cases isEnding <;> rfl
  rw [← content_merge_iff nonempty, ← Chunk.flatten_split separator (merge _ _ _ _).content, cut,
    List.flatten_append, nothing, List.append_nil]

/-- When a merged text is cut again into the chunks that went into it: where the block of added
chunks closes each of them, and so for every separator of one character and wherever no more than
one chunk is added. -/
theorem recut_iff_closesEach (matcher : Matcher) {separator : Text} (existing new : Text)
    (nonempty : separator ≠ []) :
    (Recut matcher separator existing new ↔
        ClosesEach separator (additions matcher separator existing new)) ∧
      (separator.length = 1 ∨ (merge matcher separator existing new).added.length ≤ 1 →
        Recut matcher separator existing new) := by
  refine ⟨⟨Recut.closesEach nonempty, recut_of_closesEach nonempty⟩, ?_⟩
  rintro (one | few)
  · obtain ⟨mark, rfl⟩ := List.length_eq_one_iff.mp one
    exact recut_of_closesEach nonempty (closesEach_additions fun _ => apart_of_mem_additions)
  · rw [added_merge, List.length_map] at few
    exact recut_of_closesEach nonempty (closesEach_of_length_le_one few)

/-- Two declarations go in before the last chunk. -/
theorem declarations_recut :
    "\n\n".text ≠ [] ∧
      (additions Matcher.standard "\n\n".text "// fonts\n\nexport default A\n".text
        "export const B = 1\n\nexport const C = 2\n".text).length = 2 ∧
      Recut Matcher.standard "\n\n".text "// fonts\n\nexport default A\n".text
        "export const B = 1\n\nexport const C = 2\n".text := by
  refine ⟨by decide, by decide +kernel, ?_⟩
  exact (recut_iff_closesEach Matcher.standard _ _ (by decide)).1.mpr (by decide +kernel)

/-- Of the three line ends at the end of the new text, the last begins a separator. It is added
behind a whole one and not completed, so the chunk that follows begins with it. -/
theorem last_line_end_joins_next :
    let merged := merge Matcher.standard "\n\n".text "export default A".text
      "export const B = 1\n\n\n".text
    Chunk.split "\n\n".text "export default A".text = ["export default A".text] ∧
      merged.replaced = [] ∧ merged.added = [0, 1] ∧
      ∀ chunk ∈ Chunk.split "\n\n".text merged.content,
        Chunk.complete "\n\n".text chunk ≠
          Chunk.complete "\n\n".text "export default A".text := by
  decide +kernel

end Recut

section Itself

variable {separator : Text}

/-- A chunk that matches itself is its own choice. -/
def ownChoice (separator : Text) (new : NewChunk) : Option NewChunk :=
  if Matcher.standard.accepts separator new.text new.text then some new else none

def numbered (start : Nat) (chunks : List Text) : List NewChunk :=
  (chunks.zipIdx start).map fun slot => ⟨slot.1, slot.2⟩

theorem numbered_cons (start : Nat) (chunk : Text) (chunks : List Text) :
    numbered start (chunk :: chunks) = ⟨chunk, start⟩ :: numbered (start + 1) chunks := rfl

theorem newChunks_eq_numbered (separator new : Text) :
    newChunks separator new = numbered 0 (Chunk.split separator new) := by
  rw [newChunks, List.mapIdx_eq_zipIdx_map]
  rfl

/-- Of the old chunks and others that match nothing, every old chunk takes itself. -/
theorem pair_numbered (olds : List Text) (start : Nat) (inert : List NewChunk)
    (unlike : ∀ new ∈ inert, ¬Matcher.standard.accepts separator new.text new.text) :
    (pair Matcher.standard separator olds (inert ++ numbered start olds)).1 =
      (numbered start olds).map (ownChoice separator) := by
  induction olds generalizing start inert with
  | nil => rfl
  | cons old olds ih =>
      have before : ∀ new ∈ inert, ¬Matcher.standard.accepts separator new.text old :=
        fun new member accepted => unlike new member (Matcher.accepts_self_of_accepts accepted)
      have first := List.find?_eq_none.mpr before
      rw [numbered_cons, List.map_cons]
      simp only [pair, List.find?_append, first, Option.none_or, List.eraseP_append_right _ before]
      by_cases own : Matcher.standard.accepts separator old old
      · simp only [List.find?_cons, List.eraseP_cons, own, cond_true, ownChoice, ↓reduceIte]
        rw [ih (start + 1) inert unlike]
      · -- Nothing matches what does not match itself.
        have refused : ∀ new ∈ (⟨old, start⟩ : NewChunk) :: numbered (start + 1) olds,
            ¬Matcher.standard.accepts separator new.text old := by
          intro new _ accepted
          rw [Matcher.accepts_comm] at accepted
          exact own (Matcher.accepts_self_of_accepts accepted)
        have more : ∀ new ∈ inert ++ [⟨old, start⟩],
            ¬Matcher.standard.accepts separator new.text new.text := by
          intro new member
          rcases List.mem_append.mp member with before | same
          · exact unlike new before
          · rwa [List.mem_singleton.mp same]
        rw [List.find?_eq_none.mpr refused, List.eraseP_of_forall_not refused, List.append_cons,
          ih (start + 1) _ more, ownChoice, if_neg own]

theorem pairing_itself (separator body : Text) :
    (pairing Matcher.standard separator body body).1 =
      (newChunks separator body).map (ownChoice separator) := by
  rw [pairing, newChunks_eq_numbered]
  exact pair_numbered (Chunk.split separator body) 0 [] (by simp)

theorem updated_itself (separator body : Text) :
    updated Matcher.standard separator body body = Chunk.split separator body := by
  rw [updated, pairing_itself, update, ← map_text_newChunks, List.zipWith_map_left,
    List.zipWith_map_right, List.zipWith_self]
  apply List.map_congr_left
  intro new _
  unfold ownChoice
  split <;> rfl

theorem additions_itself (separator body : Text) :
    additions Matcher.standard separator body body = [] := by
  rw [List.eq_nil_iff_forall_not_mem]
  intro chunk added
  obtain ⟨visible, unknown, _⟩ := settle_added_spec added
  apply unknown
  rw [updated_itself]
  exact complete_mem_present (text_mem_split (additions_sublist.subset added)) visible

/-- The replacements are those of chunks that match themselves, each by itself. -/
theorem mem_replaced_itself_iff {body : Text} {pair : Replacement} :
    pair ∈ (merge Matcher.standard separator body body).replaced ↔
      ∃ chunk, (Chunk.split separator body)[pair.old]? = some chunk ∧
        Matcher.standard.accepts separator chunk chunk ∧ pair.new = pair.old ∧
        pair.score = (Matcher.standard.score separator chunk chunk).value := by
  have choice : ∀ index, (pairing Matcher.standard separator body body).1[index]? =
      (Chunk.split separator body)[index]?.map fun chunk => ownChoice separator ⟨chunk, index⟩ := by
    intro index
    rw [pairing_itself, newChunks, List.getElem?_map, List.getElem?_mapIdx, Option.map_map]
    rfl
  rw [mem_replaced_iff]
  constructor
  · rintro ⟨old, chunk, there, taken, position, score⟩
    rw [choice, there, Option.map_some, Option.some.injEq] at taken
    by_cases own : Matcher.standard.accepts separator old old
    · rw [ownChoice, if_pos own, Option.some.injEq] at taken
      subst taken
      exact ⟨old, there, own, position.symm, score.symm⟩
    · rw [ownChoice, if_neg own] at taken
      cases taken
  · rintro ⟨chunk, there, own, position, score⟩
    refine ⟨chunk, ⟨chunk, pair.old⟩, there, ?_, position.symm, score.symm⟩
    rw [choice, there, Option.map_some, ownChoice, if_pos own]

theorem content_merge_itself (separator body : Text) :
    (merge Matcher.standard separator body body).content =
      (Chunk.split separator body).eraseDups.flatten := by
  rw [content, chunks_merge, additions_itself, updated_itself]
  exact congrArg List.flatten (Chunk.close_of_sublist (List.Sublist.refl _))

/-- A text merged into itself loses its repeated chunks and nothing else: each chunk that matches
itself gives way to itself, none is added, and the text changes just when a chunk stands in it
twice. -/
theorem merge_itself (separator body : Text) :
    (merge Matcher.standard separator body body).content =
        (Chunk.split separator body).eraseDups.flatten ∧
      (merge Matcher.standard separator body body).added = [] ∧
      (∀ pair ∈ (merge Matcher.standard separator body body).replaced, pair.new = pair.old) ∧
      (∀ index, index ∈ (merge Matcher.standard separator body body).replaced.map Replacement.old ↔
        ∃ chunk, (Chunk.split separator body)[index]? = some chunk ∧
          Matcher.standard.accepts separator chunk chunk) ∧
      ((merge Matcher.standard separator body body).changed ↔
        ¬(Chunk.split separator body).Nodup) := by
  refine ⟨content_merge_itself separator body, ?_, ?_, ?_, ?_⟩
  · rw [added_merge, additions_itself]
    rfl
  · intro pair recorded
    obtain ⟨_, _, _, same, _⟩ := mem_replaced_itself_iff.mp recorded
    exact same
  · intro index
    rw [List.mem_map]
    constructor
    · rintro ⟨pair, recorded, rfl⟩
      obtain ⟨chunk, there, own, _⟩ := mem_replaced_itself_iff.mp recorded
      exact ⟨chunk, there, own⟩
    · rintro ⟨chunk, there, own⟩
      exact ⟨⟨index, index, (Matcher.standard.score separator chunk chunk).value⟩,
        mem_replaced_itself_iff.mpr ⟨chunk, there, own, rfl, rfl⟩, rfl⟩
  · rw [changed, bne_iff_ne, not_iff_not, ← Chunk.flatten_eraseDups_split_iff, content_merge_itself]
    rfl

end Itself

end FontScaffold.Merge
