import FontScaffold.Proofs.Merge.Record
import Mathlib.Data.List.Nodup

set_option autoImplicit false

namespace FontScaffold.Merge

section Positions

variable (matcher : Matcher) (separator existing new : Text)

/-- What an old position comes to: the old chunk as it stands if none replaced it, or the new chunk
that did, completed unless the position is the last. -/
inductive Yields (index : Nat) : Text → Prop where
  | kept {chunk : Text} (there : (Chunk.split separator existing)[index]? = some chunk)
      (unmatched : ∀ pair ∈ (merge matcher separator existing new).replaced, pair.old ≠ index) :
      Yields index chunk
  | replaced {pair : Replacement} {chunk : Text}
      (member : pair ∈ (merge matcher separator existing new).replaced)
      (position : pair.old = index) (there : (Chunk.split separator new)[pair.new]? = some chunk)
      (inside : index + 1 < (Chunk.split separator existing).length) :
      Yields index (Chunk.complete separator chunk)
  | replacedLast {pair : Replacement} {chunk : Text}
      (member : pair ∈ (merge matcher separator existing new).replaced)
      (position : pair.old = index) (there : (Chunk.split separator new)[pair.new]? = some chunk)
      (atEnd : index + 1 = (Chunk.split separator existing).length) :
      Yields index chunk

/-- The position is the first that comes to the text. -/
def YieldsFirst (index : Nat) (text : Text) : Prop :=
  Yields matcher separator existing new index text ∧
    ∀ earlier < index, ¬Yields matcher separator existing new earlier text

/-- The text is that of all added chunks, completed. -/
def IsBlock (text : Text) : Prop :=
  (merge matcher separator existing new).added ≠ [] ∧
    text = Chunk.complete separator ((merge matcher separator existing new).added.filterMap
      ((Chunk.split separator new)[·]?)).flatten

/-- The chunks of a merged text, with the old positions they come from. -/
structure FollowsOld : Prop where
  unmatched : ∀ index chunk, (Chunk.split separator existing)[index]? = some chunk →
    (∀ pair ∈ (merge matcher separator existing new).replaced, pair.old ≠ index) →
    (merge matcher separator existing new).chunks.count chunk = 1
  present : ∀ index text, Yields matcher separator existing new index text →
    text ∈ (merge matcher separator existing new).chunks
  source : ∀ text ∈ (merge matcher separator existing new).chunks,
    (∃ index, Yields matcher separator existing new index text) ∨
      IsBlock matcher separator existing new text
  apart : ∀ text, IsBlock matcher separator existing new text →
    ∀ index, ¬Yields matcher separator existing new index text
  order : ∀ first text, YieldsFirst matcher separator existing new first text →
    ∀ second other, YieldsFirst matcher separator existing new second other →
    (first < second ↔ (merge matcher separator existing new).chunks.idxOf text <
      (merge matcher separator existing new).chunks.idxOf other)
  distinct : (merge matcher separator existing new).chunks.Nodup
  length : (merge matcher separator existing new).chunks.length ≤
    (Chunk.split separator existing).length +
      if (merge matcher separator existing new).added = [] then 0 else 1

end Positions

variable {matcher : Matcher} {separator existing new : Text}

/-- The updated sequence as it stands in the merged text, with the copies. -/
def laidOut (matcher : Matcher) (separator existing new : Text) : List Text :=
  Chunk.completeInner separator (updated matcher separator existing new)

theorem length_laidOut :
    (laidOut matcher separator existing new).length = (Chunk.split separator existing).length := by
  rw [laidOut, Chunk.length_completeInner]
  exact (paired_pairing matcher separator existing new).length_update

theorem finished_of_split {index : Nat} {chunk : Text}
    (there : (Chunk.split separator existing)[index]? = some chunk) :
    (if index + 1 < (Chunk.split separator existing).length then Chunk.complete separator chunk
      else chunk) = chunk := by
  have finished := Chunk.getElem?_completeInner separator (Chunk.split separator existing) index
  rw [Chunk.completeInner_split, there, Option.map_some, Option.some.injEq] at finished
  exact finished.symm

/-- By its records, what stands at a place is what the old position comes to. -/
theorem yields_iff {index : Nat} {text : Text} :
    Yields matcher separator existing new index text ↔
      (laidOut matcher separator existing new)[index]? = some text := by
  have length := (paired_pairing matcher separator existing new).length_update
  rw [laidOut, Chunk.getElem?_completeInner, Option.map_eq_some_iff,
    show (updated matcher separator existing new).length = _ from length]
  simp only [getElem?_updated_iff]
  constructor
  · intro yields
    cases yields with
    | kept there unmatched => exact ⟨text, .kept there unmatched, finished_of_split there⟩
    | @replaced _ chunk member position there inside =>
        exact ⟨chunk, .replaced member position there, if_pos inside⟩
    | replacedLast member position there atEnd =>
        exact ⟨text, .replaced member position there, if_neg (by omega)⟩
  · rintro ⟨chunk, stands, rfl⟩
    cases stands with
    | kept there unmatched =>
        rw [finished_of_split there]
        exact .kept there unmatched
    | @replaced pair member position there =>
        by_cases inside : index + 1 < (Chunk.split separator existing).length
        · rw [if_pos inside]
          exact .replaced member position there inside
        · rw [if_neg inside]
          obtain ⟨old, _, inOlds, _⟩ := mem_replaced_iff.mp member
          have bound := (List.getElem?_eq_some_iff.mp inOlds).1
          exact .replacedLast member position there (by omega)

theorem exists_yields_iff {text : Text} :
    (∃ index, Yields matcher separator existing new index text) ↔
      text ∈ laidOut matcher separator existing new := by
  rw [List.mem_iff_getElem?]
  simp only [yields_iff]

theorem idxOf_of_yieldsFirst {index : Nat} {text : Text}
    (first : YieldsFirst matcher separator existing new index text) :
    (laidOut matcher separator existing new).idxOf text = index :=
  FirstOccurrences.idxOf_eq_of_first (yields_iff.mp first.1)
    fun earlier before there => first.2 earlier before (yields_iff.mpr there)

section Block

theorem isBlock_iff {text : Text} :
    IsBlock matcher separator existing new text ↔
      additions matcher separator existing new ≠ [] ∧
        text = Chunk.complete separator
          ((additions matcher separator existing new).flatMap NewChunk.text) := by
  rw [IsBlock, filterMap_added, ← List.flatMap_def, added_merge, ne_eq, List.map_eq_nil_iff]

theorem block_not_mem_laidOut (any : additions matcher separator existing new ≠ []) :
    Chunk.complete separator ((additions matcher separator existing new).flatMap NewChunk.text) ∉
      laidOut matcher separator existing new :=
  complete_block_not_mem any (fun nonempty _ => whole_of_mem_updated nonempty) additions_sublist
    (fun _ added => (settle_added_spec added).1) fun _ added => (settle_added_spec added).2.1

/-- The chunks of the merged text are first occurrences of those laid out, with the block somewhere
among them if chunks were added. -/
theorem chunks_merge_eq :
    additions matcher separator existing new = [] ∧
        (merge matcher separator existing new).chunks =
          (laidOut matcher separator existing new).eraseDups ∨
      additions matcher separator existing new ≠ [] ∧
        ∃ position, (merge matcher separator existing new).chunks =
          ((laidOut matcher separator existing new).take position ++
            [Chunk.complete separator
              ((additions matcher separator existing new).flatMap NewChunk.text)] ++
            (laidOut matcher separator existing new).drop position).eraseDups := by
  by_cases none : additions matcher separator existing new = []
  · refine Or.inl ⟨none, ?_⟩
    rw [chunks_merge, none]
    rfl
  · refine Or.inr ⟨none, Chunk.lastVisible (updated matcher separator existing new), ?_⟩
    rw [chunks_merge, Chunk.close, completeInner_place none updated_ne_nil]
    rfl

theorem mem_chunks_iff {text : Text} :
    text ∈ (merge matcher separator existing new).chunks ↔
      text ∈ laidOut matcher separator existing new ∨
        IsBlock matcher separator existing new text := by
  rw [isBlock_iff]
  rcases @chunks_merge_eq matcher separator existing new with ⟨none, shape⟩ | ⟨any, position, shape⟩
  · rw [shape, List.mem_eraseDups]
    simp [none]
  · have parts : text ∈ laidOut matcher separator existing new ↔
        text ∈ (laidOut matcher separator existing new).take position ∨
          text ∈ (laidOut matcher separator existing new).drop position := by
      rw [← List.mem_append, List.take_append_drop]
    rw [shape, List.mem_eraseDups, List.mem_append, List.mem_append, List.mem_singleton, parts,
      or_right_comm, and_iff_right any]

theorem length_chunks_le :
    (merge matcher separator existing new).chunks.length ≤
      (Chunk.split separator existing).length +
        if (merge matcher separator existing new).added = [] then 0 else 1 := by
  rw [← @length_laidOut matcher separator existing new, added_merge]
  rcases @chunks_merge_eq matcher separator existing new with ⟨none, shape⟩ | ⟨any, position, shape⟩
  · have fewer := (FirstOccurrences.eraseDups_sublist
      (laidOut matcher separator existing new)).length_le
    rw [shape, none]
    simpa using fewer
  · have fewer := (FirstOccurrences.eraseDups_sublist
      ((laidOut matcher separator existing new).take position ++
        [Chunk.complete separator
          ((additions matcher separator existing new).flatMap NewChunk.text)] ++
        (laidOut matcher separator existing new).drop position)).length_le
    have total := congrArg List.length
      (List.take_append_drop position (laidOut matcher separator existing new))
    rw [← shape] at fewer
    simp only [List.length_append, List.length_singleton] at fewer total
    simp only [List.map_eq_nil_iff, any, ↓reduceIte]
    omega

/-- Without the block, which is none of them, the chunks are the first occurrences of those laid
out. -/
theorem idxOf_chunks_lt_iff {text other : Text}
    (left : text ∈ laidOut matcher separator existing new)
    (right : other ∈ laidOut matcher separator existing new) :
    (merge matcher separator existing new).chunks.idxOf text <
        (merge matcher separator existing new).chunks.idxOf other ↔
      (laidOut matcher separator existing new).idxOf text <
        (laidOut matcher separator existing new).idxOf other := by
  rcases @chunks_merge_eq matcher separator existing new with ⟨_, shape⟩ | ⟨any, position, shape⟩
  · rw [shape, FirstOccurrences.idxOf_eraseDups_lt_iff]
  · have apart := block_not_mem_laidOut any
    generalize Chunk.complete separator
      ((additions matcher separator existing new).flatMap NewChunk.text) = block at apart shape
    let keeps : Text → Bool := fun chunk => chunk != block
    have others : ∀ chunk ∈ laidOut matcher separator existing new, keeps chunk := by
      intro chunk member
      rw [bne_iff_ne]
      rintro rfl
      exact apart member
    have without : ((laidOut matcher separator existing new).take position ++ [block] ++
        (laidOut matcher separator existing new).drop position).filter keeps =
          laidOut matcher separator existing new := by
      rw [List.filter_append, List.filter_append,
        List.filter_eq_self.mpr fun chunk member => others chunk (List.mem_of_mem_take member),
        List.filter_eq_self.mpr fun chunk member => others chunk (List.mem_of_mem_drop member)]
      simp [keeps]
    have keepsLeft : keeps text := others text left
    have keepsRight : keeps other := others other right
    rw [shape, FirstOccurrences.idxOf_eraseDups_lt_iff,
      ← FirstOccurrences.idxOf_filter_lt_iff keepsLeft keepsRight, without]

end Block

/-- The chunks of a merged text follow the old positions, for any way to compare chunks: each old
chunk without a match is there once, and all stand where their texts first came up. -/
theorem chunks_follow_old (matcher : Matcher) (separator existing new : Text) :
    FollowsOld matcher separator existing new where
  unmatched index chunk there unmatched := by
    apply List.count_eq_one_of_mem (FirstOccurrences.nodup_eraseDups _)
    exact mem_chunks_iff.mpr (Or.inl (exists_yields_iff.mp ⟨index, .kept there unmatched⟩))
  present index text yields := mem_chunks_iff.mpr (Or.inl (exists_yields_iff.mp ⟨index, yields⟩))
  source text member := (mem_chunks_iff.mp member).imp_left exists_yields_iff.mpr
  apart text block index yields := by
    obtain ⟨any, rfl⟩ := isBlock_iff.mp block
    exact block_not_mem_laidOut any (exists_yields_iff.mp ⟨index, yields⟩)
  order first text yields second other another := by
    rw [idxOf_chunks_lt_iff (exists_yields_iff.mp ⟨first, yields.1⟩)
      (exists_yields_iff.mp ⟨second, another.1⟩), idxOf_of_yieldsFirst yields,
      idxOf_of_yieldsFirst another]
  distinct := FirstOccurrences.nodup_eraseDups _
  length := length_chunks_le

end FontScaffold.Merge
