import FontScaffold.Proofs.Merge.Record
import Mathlib.Data.List.Nodup

set_option autoImplicit false

namespace FontScaffold.Merge

section Accounts

variable (matcher : Matcher) (separator existing new : Text)

/-- Why a new chunk with `text` at `index` may be left out: a chunk in place or added before it is
the same when completed, or it matches a new chunk that replaced an old one. -/
inductive Redundant (index : Nat) (text : Text) : Prop where
  | inPlace {chunk : Text} (placed : Placed matcher separator existing new chunk)
      (same : Chunk.complete separator chunk = Chunk.complete separator text)
  | added {earlier : Nat} {other : Text}
      (member : earlier ∈ (merge matcher separator existing new).added) (before : earlier < index)
      (there : (Chunk.split separator new)[earlier]? = some other)
      (same : Chunk.complete separator other = Chunk.complete separator text)
  | twin {pair : Replacement} {other : Text}
      (member : pair ∈ (merge matcher separator existing new).replaced)
      (there : (Chunk.split separator new)[pair.new]? = some other)
      (accepted : matcher.accepts separator text other)

/-- What became of a new chunk; by the records no two of these happen to the same one. -/
inductive Fate (index : Nat) (text : Text) : Prop where
  | replaced
      (once : ((merge matcher separator existing new).replaced.map Replacement.new).count index = 1)
      (notAdded : index ∉ (merge matcher separator existing new).added)
  | added
      (never : index ∉ (merge matcher separator existing new).replaced.map Replacement.new)
      (member : index ∈ (merge matcher separator existing new).added)
  | skipped
      (never : index ∉ (merge matcher separator existing new).replaced.map Replacement.new)
      (notAdded : index ∉ (merge matcher separator existing new).added)
      (reason : Redundant matcher separator existing new index text)

/-- The new chunks of a merge, with none lost and none doubled. -/
structure Accounted : Prop where
  fate : ∀ index text, (Chunk.split separator new)[index]? = some text → text ≠ [] →
    Fate matcher separator existing new index text
  visible : ∀ index ∈ (merge matcher separator existing new).added,
    ∃ text, (Chunk.split separator new)[index]? = some text ∧ text ≠ []
  increasing : (merge matcher separator existing new).added.Pairwise (· < ·)
  occurs : ∀ index text, (Chunk.split separator new)[index]? = some text →
    index ∈ (merge matcher separator existing new).replaced.map Replacement.new ∨
      index ∈ (merge matcher separator existing new).added →
    text <:+: (merge matcher separator existing new).content
  run : ((merge matcher separator existing new).added.filterMap
      ((Chunk.split separator new)[·]?)).flatten <:+: (merge matcher separator existing new).content
  distinct : (((merge matcher separator existing new).added.filterMap
      ((Chunk.split separator new)[·]?)).map (Chunk.complete separator)).Nodup
  fresh : ∀ index ∈ (merge matcher separator existing new).added, ∀ text,
    (Chunk.split separator new)[index]? = some text →
    ∀ chunk, Placed matcher separator existing new chunk → chunk ≠ [] →
      Chunk.complete separator chunk ≠ Chunk.complete separator text

end Accounts

variable {matcher : Matcher} {separator existing new : Text}

section Occurrence

theorem isInfix_flatten_close {chunks : List Text} {chunk : Text} (member : chunk ∈ chunks) :
    chunk <:+: (Chunk.close separator chunks).flatten := by
  obtain ⟨finished, inside, begins⟩ : ∃ finished ∈ Chunk.completeInner separator chunks,
      chunk <+: finished := by
    rcases List.eq_nil_or_concat' chunks with rfl | ⟨inner, last, rfl⟩
    · cases member
    rw [Chunk.completeInner_append_singleton]
    rcases List.mem_append.mp member with inside | atEnd
    · exact ⟨Chunk.complete separator chunk,
        List.mem_append_left _ (List.mem_map_of_mem inside), List.prefix_append chunk _⟩
    · exact ⟨chunk, List.mem_append_right _ atEnd, List.prefix_refl chunk⟩
  have closed : finished ∈ Chunk.close separator chunks := List.mem_eraseDups.mpr inside
  exact begins.isInfix.trans (List.infix_of_mem_flatten closed)

theorem mem_place_of_mem {added : List NewChunk} {chunks : List Text} {chunk : Text}
    (member : chunk ∈ chunks) : chunk ∈ place added chunks := by
  unfold place
  split
  · exact member
  · rw [← List.take_append_drop (Chunk.lastVisible chunks) chunks, List.mem_append] at member
    rw [Chunk.insertBeforeLast, List.mem_append]
    exact member.imp_right (List.mem_cons_of_mem _)

theorem block_mem_place {added : List NewChunk} {chunks : List Text} (some : added ≠ []) :
    added.flatMap NewChunk.text ∈ place added chunks := by
  rw [place, if_neg (by simpa using some)]
  exact List.mem_append_right _ List.mem_cons_self

theorem isInfix_content_of_placed {chunk : Text}
    (placed : Placed matcher separator existing new chunk) :
    chunk <:+: (merge matcher separator existing new).content :=
  isInfix_flatten_close (mem_place_of_mem (mem_updated_iff.mpr placed))

theorem isInfix_content_of_additions :
    (additions matcher separator existing new).flatMap NewChunk.text <:+:
      (merge matcher separator existing new).content := by
  by_cases none : additions matcher separator existing new = []
  · rw [none]
    exact List.nil_infix
  · exact isInfix_flatten_close (block_mem_place none)

end Occurrence

theorem redundant_of_left {chunk : NewChunk} (visible : chunk.text ≠ [])
    (unused : chunk ∈ (pairing matcher separator existing new).2)
    (refused : chunk ∉ additions matcher separator existing new) :
    Redundant matcher separator existing new chunk.index chunk.text := by
  have paired := paired_pairing matcher separator existing new
  have ordered := (pairwise_newChunks separator new).sublist paired.left_sublist
  rcases settle_refused ordered unused refused with
    empty | known | ⟨other, added, before, same⟩ | ⟨twin, used, accepted⟩
  · exact (visible empty).elim
  · obtain ⟨old, inside, same⟩ := exists_of_mem_present known
    exact .inPlace (mem_updated_iff.mp inside) same
  · have member := additions_sublist.subset added
    exact .added ((mem_added_iff member).mpr added) before (mem_newChunks_iff.mp member) same
  · have taken := mem_takenChunks_iff.mp used
    have member := paired.mem_free taken
    obtain ⟨pair, recorded, position⟩ := List.mem_map.mp ((mem_replaced_iff_taken member).mpr taken)
    have there := mem_newChunks_iff.mp member
    rw [← position] at there
    exact .twin recorded there accepted

theorem fate_of_newChunk {chunk : NewChunk} (member : chunk ∈ newChunks separator new)
    (visible : chunk.text ≠ []) :
    Fate matcher separator existing new chunk.index chunk.text := by
  obtain ⟨once, _, apart⟩ := List.nodup_append.mp
    (@nodup_positions matcher separator existing new)
  have notBoth : chunk.index ∈ (merge matcher separator existing new).replaced.map Replacement.new →
      chunk ∉ (pairing matcher separator existing new).2 :=
    fun replaced left => apart _ replaced _ (List.mem_map_of_mem left) rfl
  have addedLeft : chunk ∈ additions matcher separator existing new →
      chunk ∈ (pairing matcher separator existing new).2 :=
    fun added => (settle_added_sublist _ _).subset added
  rcases mem_replaced_or_left member with replaced | left
  · refine .replaced (List.count_eq_one_of_mem once replaced) fun added => ?_
    exact notBoth replaced (addedLeft ((mem_added_iff member).mp added))
  · have never := fun replaced => notBoth replaced left
    by_cases added : chunk ∈ additions matcher separator existing new
    · exact .added never ((mem_added_iff member).mpr added)
    · exact .skipped never (fun recorded => added ((mem_added_iff member).mp recorded))
        (redundant_of_left visible left added)

/-- Every new chunk of a merge is accounted for, for any way to compare chunks. -/
theorem every_new_chunk_accounted_for (matcher : Matcher) (separator existing new : Text) :
    Accounted matcher separator existing new where
  fate index text there visible := by
    have member : (⟨text, index⟩ : NewChunk) ∈ newChunks separator new :=
      mem_newChunks_iff.mpr there
    exact fate_of_newChunk member visible
  visible index added := by
    rw [added_merge] at added
    obtain ⟨chunk, member, rfl⟩ := List.mem_map.mp added
    exact ⟨chunk.text, mem_newChunks_iff.mp (additions_sublist.subset member),
      (settle_added_spec member).1⟩
  increasing := pairwise_added
  occurs index text there taken := by
    have member : (⟨text, index⟩ : NewChunk) ∈ newChunks separator new :=
      mem_newChunks_iff.mpr there
    rcases taken with replaced | added
    · obtain ⟨pair, recorded, rfl⟩ := List.mem_map.mp replaced
      exact isInfix_content_of_placed (.replaced recorded there)
    · have inside := List.mem_map_of_mem (f := NewChunk.text) ((mem_added_iff member).mp added)
      have block := List.infix_of_mem_flatten inside
      rw [← List.flatMap_def] at block
      exact block.trans isInfix_content_of_additions
  run := by
    rw [filterMap_added, ← List.flatMap_def]
    exact isInfix_content_of_additions
  distinct := by
    rw [filterMap_added, List.map_map]
    exact nodup_map_key_settle_added _ _
  fresh index added text there chunk placed visible same := by
    have member : (⟨text, index⟩ : NewChunk) ∈ newChunks separator new :=
      mem_newChunks_iff.mpr there
    have unknown := (settle_added_spec ((mem_added_iff member).mp added)).2.1
    apply unknown
    rw [key, ← same]
    exact complete_mem_present (mem_updated_iff.mpr placed) visible

end FontScaffold.Merge
