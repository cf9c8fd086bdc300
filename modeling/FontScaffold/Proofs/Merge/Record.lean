import FontScaffold.Proofs.Merge.Result

set_option autoImplicit false

namespace FontScaffold.Merge

/-- A chunk of the updated sequence, told by the records of a merge. -/
inductive Placed (matcher : Matcher) (separator existing new : Text) : Text → Prop where
  | kept {index : Nat} {chunk : Text}
      (there : (Chunk.split separator existing)[index]? = some chunk)
      (unmatched : ∀ pair ∈ (merge matcher separator existing new).replaced, pair.old ≠ index) :
      Placed matcher separator existing new chunk
  | replaced {pair : Replacement} {chunk : Text}
      (member : pair ∈ (merge matcher separator existing new).replaced)
      (there : (Chunk.split separator new)[pair.new]? = some chunk) :
      Placed matcher separator existing new chunk

/-- A chunk of the updated sequence with its place, told by the records. -/
inductive StandsAt (matcher : Matcher) (separator existing new : Text) (index : Nat)
    (chunk : Text) : Prop where
  | kept (there : (Chunk.split separator existing)[index]? = some chunk)
      (unmatched : ∀ pair ∈ (merge matcher separator existing new).replaced, pair.old ≠ index) :
      StandsAt matcher separator existing new index chunk
  | replaced {pair : Replacement}
      (member : pair ∈ (merge matcher separator existing new).replaced)
      (position : pair.old = index) (there : (Chunk.split separator new)[pair.new]? = some chunk) :
      StandsAt matcher separator existing new index chunk

variable {matcher : Matcher} {separator existing new : Text}

theorem mem_newChunks_iff {chunk : NewChunk} :
    chunk ∈ newChunks separator new ↔
      (Chunk.split separator new)[chunk.index]? = some chunk.text := by
  rw [newChunks, List.mem_mapIdx, List.getElem?_eq_some_iff]
  constructor
  · rintro ⟨index, inside, rfl⟩
    exact ⟨inside, rfl⟩
  · rintro ⟨inside, same⟩
    exact ⟨chunk.index, inside, by rw [same]⟩

theorem eq_of_index_eq {first second : NewChunk} (member : first ∈ newChunks separator new)
    (another : second ∈ newChunks separator new) (same : first.index = second.index) :
    first = second := by
  rw [mem_newChunks_iff] at member another
  rw [same, another, Option.some.injEq] at member
  cases first
  cases second
  simp_all

theorem pairwise_newChunks (separator new : Text) :
    (newChunks separator new).Pairwise fun first second => first.index < second.index := by
  rw [newChunks, List.pairwise_iff_getElem]
  intro first second _ _ before
  simpa only [List.getElem_mapIdx] using before

section Replaced

variable {olds : List Text} {choices : List (Option NewChunk)}

theorem mem_replacements_iff {pair : Replacement} :
    pair ∈ replacements matcher separator olds choices ↔
      ∃ old chunk, olds[pair.old]? = some old ∧ choices[pair.old]? = some (some chunk) ∧
        chunk.index = pair.new ∧ (matcher.score separator chunk.text old).value = pair.score := by
  simp only [replacements, List.mem_filterMap, Option.map_eq_some_iff]
  constructor
  · rintro ⟨⟨⟨old, choice⟩, index⟩, member, chunk, rfl, rfl⟩
    obtain ⟨inOlds, inChoices⟩ :=
      List.getElem?_zip_eq_some.mp (List.mk_mem_zipIdx_iff_getElem?.mp member)
    exact ⟨old, chunk, inOlds, inChoices, rfl, rfl⟩
  · rintro ⟨old, chunk, inOlds, inChoices, newSame, scoreSame⟩
    have zipped : (List.zip olds choices)[pair.old]? = some (old, some chunk) :=
      List.getElem?_zip_eq_some.mpr ⟨inOlds, inChoices⟩
    refine ⟨((old, some chunk), pair.old), List.mk_mem_zipIdx_iff_getElem?.mpr zipped, chunk,
      rfl, ?_⟩
    cases pair
    simp_all

/-- The recorded new chunks are those taken, in the order of the old chunks. -/
theorem map_new_replacements (length : choices.length = olds.length) :
    (replacements matcher separator olds choices).map Replacement.new =
      (choices.filterMap id).map NewChunk.index := by
  have second : ((List.zip olds choices).zipIdx.map fun slot => slot.1.2) = choices := by
    calc
      _ = ((List.zip olds choices).zipIdx.map Prod.fst).map Prod.snd := (List.map_map).symm
      _ = choices := by rw [List.zipIdx_map_fst, List.map_snd_zip (Nat.le_of_eq length)]
  calc
    _ = (List.zip olds choices).zipIdx.filterMap fun slot => slot.1.2.map NewChunk.index := by
      rw [replacements, List.map_filterMap]
      congr 1
      funext slot
      rw [Option.map_map]
      rfl
    _ = ((List.zip olds choices).zipIdx.map fun slot => slot.1.2).filterMap
          (Option.map NewChunk.index) := by
      rw [List.filterMap_map]
      rfl
    _ = (choices.filterMap id).map NewChunk.index := by
      rw [second, List.map_filterMap]
      rfl

end Replaced

theorem replaced_merge :
    (merge matcher separator existing new).replaced =
      replacements matcher separator (Chunk.split separator existing)
        (pairing matcher separator existing new).1 := rfl

theorem mem_replaced_iff {pair : Replacement} :
    pair ∈ (merge matcher separator existing new).replaced ↔
      ∃ old chunk, (Chunk.split separator existing)[pair.old]? = some old ∧
        (pairing matcher separator existing new).1[pair.old]? = some (some chunk) ∧
        chunk.index = pair.new ∧ (matcher.score separator chunk.text old).value = pair.score :=
  mem_replacements_iff

theorem added_merge :
    (merge matcher separator existing new).added =
      (additions matcher separator existing new).map NewChunk.index := rfl

theorem getElem?_updated_iff {index : Nat} {chunk : Text} :
    (updated matcher separator existing new)[index]? = some chunk ↔
      StandsAt matcher separator existing new index chunk := by
  have paired := paired_pairing matcher separator existing new
  rw [updated, update, List.getElem?_zipWith_eq_some]
  constructor
  · rintro ⟨old, choice, inOlds, inChoices, same⟩
    cases choice with
    | none =>
        have stays : old = chunk := same
        refine .kept (stays ▸ inOlds) fun pair recorded atIndex => ?_
        obtain ⟨_, _, _, taken, _⟩ := mem_replaced_iff.mp recorded
        rw [atIndex, inChoices] at taken
        cases taken
    | some fresh =>
        have gives : fresh.text = chunk := same
        have recorded : (⟨index, fresh.index, (matcher.score separator fresh.text old).value⟩ :
            Replacement) ∈ (merge matcher separator existing new).replaced :=
          mem_replaced_iff.mpr ⟨old, fresh, inOlds, inChoices, rfl, rfl⟩
        have position := mem_newChunks_iff.mp (paired.mem_free (List.mem_of_getElem? inChoices))
        rw [gives] at position
        exact .replaced recorded rfl position
  · intro stands
    cases stands with
    | kept there unmatched =>
        have inside : index < (pairing matcher separator existing new).1.length := by
          rw [paired.length_eq]
          exact (List.getElem?_eq_some_iff.mp there).1
        have choice := List.getElem?_eq_getElem inside
        refine ⟨chunk, _, there, choice, ?_⟩
        cases taken : (pairing matcher separator existing new).1[index] with
        | none => rfl
        | some fresh =>
            rw [taken] at choice
            have recorded : (⟨index, fresh.index,
              (matcher.score separator fresh.text chunk).value⟩ :
                Replacement) ∈ (merge matcher separator existing new).replaced :=
              mem_replaced_iff.mpr ⟨chunk, fresh, there, choice, rfl, rfl⟩
            exact (unmatched _ recorded rfl).elim
    | @replaced pair member position there =>
        obtain ⟨old, fresh, inOlds, inChoices, newer, _⟩ := mem_replaced_iff.mp member
        have known := mem_newChunks_iff.mp (paired.mem_free (List.mem_of_getElem? inChoices))
        rw [newer, there, Option.some.injEq] at known
        rw [position] at inOlds inChoices
        exact ⟨old, some fresh, inOlds, inChoices, known.symm⟩

theorem mem_updated_iff {chunk : Text} :
    chunk ∈ updated matcher separator existing new ↔
      Placed matcher separator existing new chunk := by
  simp only [List.mem_iff_getElem?, getElem?_updated_iff]
  constructor
  · rintro ⟨index, ⟨there, unmatched⟩ | ⟨member, _, there⟩⟩
    · exact .kept there unmatched
    · exact .replaced member there
  · rintro (⟨there, unmatched⟩ | ⟨member, there⟩)
    · exact ⟨_, .kept there unmatched⟩
    · exact ⟨_, .replaced member rfl there⟩

theorem nodup_positions :
    ((merge matcher separator existing new).replaced.map Replacement.new ++
      (pairing matcher separator existing new).2.map NewChunk.index).Nodup := by
  have paired := paired_pairing matcher separator existing new
  rw [replaced_merge, map_new_replacements paired.length_eq, ← List.map_append]
  have moved := paired.perm.map NewChunk.index
  rw [moved.nodup_iff, List.Nodup, List.pairwise_map]
  exact (pairwise_newChunks separator new).imp Nat.ne_of_lt

theorem pairwise_added :
    (merge matcher separator existing new).added.Pairwise (· < ·) := by
  rw [added_merge, List.pairwise_map]
  exact (pairwise_newChunks separator new).sublist additions_sublist

theorem mem_replaced_or_left {chunk : NewChunk} (member : chunk ∈ newChunks separator new) :
    chunk.index ∈ (merge matcher separator existing new).replaced.map Replacement.new ∨
      chunk ∈ (pairing matcher separator existing new).2 := by
  have paired := paired_pairing matcher separator existing new
  rw [← paired.perm.mem_iff, List.mem_append] at member
  rw [replaced_merge, map_new_replacements paired.length_eq]
  exact member.imp_left List.mem_map_of_mem

theorem mem_replaced_iff_taken {chunk : NewChunk} (member : chunk ∈ newChunks separator new) :
    chunk.index ∈ (merge matcher separator existing new).replaced.map Replacement.new ↔
      some chunk ∈ (pairing matcher separator existing new).1 := by
  have paired := paired_pairing matcher separator existing new
  rw [replaced_merge, map_new_replacements paired.length_eq, List.mem_map]
  constructor
  · rintro ⟨other, taken, same⟩
    rw [List.mem_filterMap] at taken
    obtain ⟨choice, taken, rfl⟩ := taken
    rwa [← eq_of_index_eq (paired.mem_free taken) member same]
  · exact fun taken => ⟨chunk, List.mem_filterMap.mpr ⟨some chunk, taken, rfl⟩, rfl⟩

theorem mem_added_iff {chunk : NewChunk} (member : chunk ∈ newChunks separator new) :
    chunk.index ∈ (merge matcher separator existing new).added ↔
      chunk ∈ additions matcher separator existing new := by
  rw [added_merge, List.mem_map]
  constructor
  · rintro ⟨other, added, same⟩
    rwa [← eq_of_index_eq (additions_sublist.subset added) member same]
  · exact fun added => ⟨chunk, added, rfl⟩

theorem filterMap_added :
    (merge matcher separator existing new).added.filterMap ((Chunk.split separator new)[·]?) =
      (additions matcher separator existing new).map NewChunk.text := by
  rw [added_merge, List.filterMap_map, ← List.filterMap_eq_map]
  apply List.filterMap_congr
  intro chunk added
  exact mem_newChunks_iff.mp (additions_sublist.subset added)

end FontScaffold.Merge
