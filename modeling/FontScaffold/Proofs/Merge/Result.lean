import FontScaffold.Proofs.Chunk.Closing
import FontScaffold.Proofs.Merge.Pairing

set_option autoImplicit false

namespace FontScaffold.Merge

section Parts

variable (matcher : Matcher) (separator existing new : Text)

def newChunks : List NewChunk :=
  (Chunk.split separator new).mapIdx fun index text => ⟨text, index⟩

/-- The choice of each old chunk, and the new chunks that none took. -/
def pairing : List (Option NewChunk) × List NewChunk :=
  pair matcher separator (Chunk.split separator existing) (newChunks separator new)

def updated : List Text :=
  update (Chunk.split separator existing) (pairing matcher separator existing new).1

def takenChunks : List NewChunk :=
  (newChunks separator new).filter fun other =>
    !(pairing matcher separator existing new).2.contains other

def additions : List NewChunk :=
  (settle matcher separator (takenChunks matcher separator existing new)
    (present separator (updated matcher separator existing new))
    (pairing matcher separator existing new).2).added

theorem chunks_merge :
    (merge matcher separator existing new).chunks =
      Chunk.close separator (place (additions matcher separator existing new)
        (updated matcher separator existing new)) := rfl

theorem paired_pairing :
    Paired matcher separator (Chunk.split separator existing) (newChunks separator new)
      (pairing matcher separator existing new).1 (pairing matcher separator existing new).2 :=
  paired_pair matcher separator _ _

end Parts

variable {matcher : Matcher} {separator existing new : Text}

theorem map_text_newChunks (separator new : Text) :
    (newChunks separator new).map NewChunk.text = Chunk.split separator new := by
  apply List.ext_getElem
  · simp [newChunks]
  · intro index _ _
    simp [newChunks]

theorem text_mem_split {chunk : NewChunk} (member : chunk ∈ newChunks separator new) :
    chunk.text ∈ Chunk.split separator new := by
  rw [← map_text_newChunks]
  exact List.mem_map_of_mem member

theorem nodup_newChunks (separator new : Text) : (newChunks separator new).Nodup := by
  rw [newChunks, List.Nodup, List.pairwise_iff_getElem]
  intro first second _ _ before same
  simp only [List.getElem_mapIdx, NewChunk.mk.injEq] at same
  omega

theorem additions_sublist :
    (additions matcher separator existing new).Sublist (newChunks separator new) :=
  (settle_added_sublist _ _).trans (paired_pairing matcher separator existing new).left_sublist

theorem mem_takenChunks_iff {chunk : NewChunk} :
    chunk ∈ takenChunks matcher separator existing new ↔
      some chunk ∈ (pairing matcher separator existing new).1 := by
  have paired := paired_pairing matcher separator existing new
  have distinct := paired.perm.nodup_iff.mpr (nodup_newChunks separator new)
  have apart := (List.nodup_append.mp distinct).2.2
  simp only [takenChunks, List.mem_filter, Bool.not_eq_true', List.contains_eq_mem,
    decide_eq_false_iff_not]
  constructor
  · rintro ⟨member, notLeft⟩
    rw [← paired.perm.mem_iff, List.mem_append, List.mem_filterMap] at member
    rcases member with ⟨choice, taken, same⟩ | left
    · rwa [show choice = some chunk from same] at taken
    · exact (notLeft left).elim
  · intro taken
    refine ⟨paired.mem_free taken, fun left => ?_⟩
    exact apart chunk (List.mem_filterMap.mpr ⟨some chunk, taken, rfl⟩) chunk left rfl

section Whole

variable (nonempty : separator ≠ [])

include nonempty

theorem whole_of_mem_newChunks {chunk : NewChunk} (member : chunk ∈ newChunks separator new) :
    Chunk.Whole separator chunk.text :=
  (Chunk.cut_split nonempty new).whole (text_mem_split member)

theorem whole_of_mem_updated {chunk : Text}
    (member : chunk ∈ updated matcher separator existing new) : Chunk.Whole separator chunk := by
  have paired := paired_pairing matcher separator existing new
  rcases paired.mem_update member with old | ⟨other, taken, rfl⟩
  · exact (Chunk.cut_split nonempty existing).whole old
  · exact whole_of_mem_newChunks nonempty (paired.mem_free taken)

end Whole

/-- The updated sequence with the additions one by one before the last visible chunk. -/
def spliced (added : List NewChunk) (updated : List Text) : List Text :=
  updated.take (Chunk.lastVisible updated) ++ added.map NewChunk.text ++
    updated.drop (Chunk.lastVisible updated)

@[simp] theorem spliced_nil (updated : List Text) : spliced [] updated = updated := by
  simp [spliced]

theorem lastVisible_lt {chunks : List Text} (some : chunks ≠ []) :
    Chunk.lastVisible chunks < chunks.length := by
  have positive := List.length_pos_iff.mpr some
  unfold Chunk.lastVisible
  omega

theorem spliced_concat (added : List NewChunk) (front : List Text) (last : Text) :
    ∃ inner, spliced added (front ++ [last]) = inner ++ [last] := by
  have inside : Chunk.lastVisible (front ++ [last]) ≤ front.length := by
    have short := lastVisible_lt (List.append_ne_nil_of_right_ne_nil front
      (List.cons_ne_nil last []))
    simp only [List.length_append, List.length_singleton] at short
    omega
  refine ⟨front.take (Chunk.lastVisible (front ++ [last])) ++ added.map NewChunk.text ++
    front.drop (Chunk.lastVisible (front ++ [last])), ?_⟩
  rw [spliced, List.take_append_of_le_length inside, List.drop_append_of_le_length inside,
    List.append_assoc, List.append_assoc, List.append_assoc]

theorem mem_completeInner_append {chunks : List Text} {chunk last : Text} :
    chunk ∈ Chunk.completeInner separator (chunks ++ [last]) ↔
      (∃ other ∈ chunks, Chunk.complete separator other = chunk) ∨ chunk = last := by
  rw [Chunk.completeInner_append_singleton, List.mem_append, List.mem_map, List.mem_singleton]

theorem completeInner_spliced (added : List NewChunk) {chunks : List Text} (some : chunks ≠ []) :
    Chunk.completeInner separator (spliced added chunks) =
      (Chunk.completeInner separator chunks).take (Chunk.lastVisible chunks) ++
        added.map (key separator) ++
        (Chunk.completeInner separator chunks).drop (Chunk.lastVisible chunks) := by
  rw [spliced, Chunk.completeInner_insert separator _ (lastVisible_lt some), List.map_map]
  rfl

theorem completeInner_place {added : List NewChunk} (any : added ≠ []) {chunks : List Text}
    (some : chunks ≠ []) :
    Chunk.completeInner separator (place added chunks) =
      (Chunk.completeInner separator chunks).take (Chunk.lastVisible chunks) ++
        [Chunk.complete separator (added.flatMap NewChunk.text)] ++
        (Chunk.completeInner separator chunks).drop (Chunk.lastVisible chunks) := by
  have inserted := Chunk.completeInner_insert separator [added.flatMap NewChunk.text]
    (lastVisible_lt some)
  rw [List.append_assoc, List.singleton_append] at inserted
  rw [place, if_neg (mt List.isEmpty_iff.mp any), Chunk.insertBeforeLast, inserted]
  rfl

theorem mem_completeInner_spliced {added : List NewChunk} {chunks : List Text} {chunk : Text}
    (member : chunk ∈ Chunk.completeInner separator chunks ∨
      chunks ≠ [] ∧ ∃ new ∈ added, key separator new = chunk) :
    chunk ∈ Chunk.completeInner separator (spliced added chunks) := by
  by_cases some : chunks = []
  · subst some
    rcases member with inner | ⟨some, _⟩
    · cases inner
    · exact (some rfl).elim
  rw [completeInner_spliced added some, List.mem_append, List.mem_append, List.mem_map]
  rcases member with inner | ⟨_, added⟩
  · rw [← List.take_append_drop (Chunk.lastVisible chunks) (Chunk.completeInner separator chunks),
      List.mem_append] at inner
    exact inner.imp_left Or.inl
  · exact Or.inl (Or.inr added)

theorem mem_present {front : List Text} {last chunk : Text}
    (member : chunk ∈ front.map (Chunk.complete separator) ∨ chunk = last ∨
      last ≠ [] ∧ chunk = Chunk.complete separator last) :
    chunk ∈ present separator (front ++ [last]) := by
  rw [present, Chunk.completeInner_append_singleton, List.mem_append, List.mem_append]
  rcases member with inner | rfl | ⟨visible, rfl⟩
  · exact Or.inl (Or.inl inner)
  · exact Or.inl (Or.inr List.mem_cons_self)
  · exact Or.inr (by simp [visible])

theorem complete_mem_present {chunks : List Text} {chunk : Text} (member : chunk ∈ chunks)
    (visible : chunk ≠ []) : Chunk.complete separator chunk ∈ present separator chunks := by
  rcases List.eq_nil_or_concat' chunks with rfl | ⟨front, last, rfl⟩
  · cases member
  · apply mem_present
    rcases List.mem_append.mp member with inner | atEnd
    · exact Or.inl (List.mem_map_of_mem inner)
    · rw [List.mem_singleton] at atEnd
      subst atEnd
      exact Or.inr (Or.inr ⟨visible, rfl⟩)

theorem exists_of_mem_present {chunks : List Text} {chunk : NewChunk}
    (member : key separator chunk ∈ present separator chunks) :
    ∃ other ∈ chunks, Chunk.complete separator other = key separator chunk := by
  rcases List.eq_nil_or_concat' chunks with rfl | ⟨front, last, rfl⟩
  · cases member
  simp only [present, Chunk.completeInner_append_singleton, List.mem_append, List.mem_map,
    List.mem_singleton, List.getLast?_concat] at member
  rcases member with (⟨other, inside, copy⟩ | same) | visible
  · exact ⟨other, List.mem_append_left _ inside, copy⟩
  · refine ⟨last, by simp, ?_⟩
    rw [← same]
    exact Chunk.complete_complete separator chunk.text
  · split at visible
    · cases visible
    · exact ⟨last, by simp, (List.mem_singleton.mp visible).symm⟩

theorem whole_of_mem_completeInner {chunks : List Text}
    (whole : ∀ chunk ∈ chunks, Chunk.Whole separator chunk) :
    ∀ chunk ∈ Chunk.completeInner separator chunks, Chunk.Whole separator chunk := by
  rcases List.eq_nil_or_concat' chunks with rfl | ⟨inner, last, rfl⟩
  · exact whole
  rw [Chunk.completeInner_append_singleton]
  intro chunk member
  rcases List.mem_append.mp member with inside | atEnd
  · obtain ⟨other, there, rfl⟩ := List.mem_map.mp inside
    exact Or.inl (whole other (List.mem_append_left _ there)).closed_complete
  · rw [List.mem_singleton.mp atEnd]
    exact whole last (by simp)

/-- Completing the block of the added chunks completes each of them. -/
def ClosesEach (separator : Text) (added : List NewChunk) : Prop :=
  added = [] ∨ Chunk.complete separator (added.flatMap NewChunk.text) =
    (added.map (key separator)).flatten

instance (separator : Text) (added : List NewChunk) : Decidable (ClosesEach separator added) :=
  inferInstanceAs (Decidable (_ ∨ _))

theorem closesEach_of_apart {init : List NewChunk} {tail : NewChunk}
    (closed : ∀ chunk ∈ init.map NewChunk.text, Chunk.Closed separator chunk)
    (apart : Chunk.Apart separator tail.text) : ClosesEach separator (init ++ [tail]) := by
  have keys : init.map (key separator) = init.map NewChunk.text := by
    apply List.map_congr_left
    intro chunk member
    exact (closed chunk.text (List.mem_map_of_mem member)).complete_eq
  right
  rw [List.flatMap_append, List.flatMap_singleton, apart, List.map_append, keys,
    List.flatten_append, List.flatMap_def]
  simp [key]

theorem closesEach_of_length_le_one {added : List NewChunk} (few : added.length ≤ 1) :
    ClosesEach separator added := by
  cases added with
  | nil => exact Or.inl rfl
  | cons chunk rest =>
      have none : rest = [] := List.eq_nil_of_length_eq_zero (by simpa using few)
      right
      rw [none, List.flatMap_singleton, List.map_singleton, List.flatten_singleton]
      rfl

/-- A block of two chunks or more is no chunk, so no chunk is like it; a block of one is that
chunk. -/
theorem ne_complete_block {init : List NewChunk} {tail : NewChunk} {chunk : Text}
    (picked : ((init ++ [tail]).map NewChunk.text).Sublist (Chunk.split separator new))
    (visible : tail.text ≠ []) (whole : separator ≠ [] → Chunk.Whole separator chunk)
    (fresh : chunk ≠ key separator tail) :
    chunk ≠ Chunk.complete separator ((init ++ [tail]).flatMap NewChunk.text) := by
  intro same
  cases init with
  | nil =>
      rw [List.nil_append, List.flatMap_singleton] at same
      exact fresh same
  | cons first rest =>
      have nonempty : separator ≠ [] := by
        intro empty
        have length := picked.length_le
        simp [Chunk.split, empty] at length
      rw [List.map_append, List.map_singleton] at picked
      have closed := Chunk.closed_of_sublist_split picked first.text List.mem_cons_self
      have proper := whole nonempty
      rw [same, Chunk.complete, List.cons_append, List.flatMap_cons, List.flatMap_append,
        List.flatMap_singleton, List.append_assoc] at proper
      exact Chunk.not_whole_append closed (by simp [visible]) proper

/-- The block of added chunks is none of the others. -/
theorem complete_block_not_mem {added : List NewChunk} {chunks : List Text} (any : added ≠ [])
    (whole : separator ≠ [] → ∀ chunk ∈ chunks, Chunk.Whole separator chunk)
    (part : added.Sublist (newChunks separator new)) (visible : ∀ chunk ∈ added, chunk.text ≠ [])
    (fresh : ∀ chunk ∈ added, key separator chunk ∉ present separator chunks) :
    Chunk.complete separator (added.flatMap NewChunk.text) ∉
      Chunk.completeInner separator chunks := by
  intro inside
  obtain ⟨init, tail, rfl⟩ := (List.eq_nil_or_concat' added).resolve_left any
  have picked := part.map NewChunk.text
  rw [map_text_newChunks] at picked
  have last : tail ∈ init ++ [tail] := List.mem_append_right init List.mem_cons_self
  refine ne_complete_block picked (visible tail last)
    (fun nonempty => whole_of_mem_completeInner (whole nonempty) _ inside) ?_ rfl
  intro same
  apply fresh tail last
  rw [← same]
  exact List.mem_append_left _ inside

/-- One by one, the additions give the same text as in a block exactly if the block closes each. -/
theorem flatten_close_place_iff {added : List NewChunk} {chunks : List Text} (some : chunks ≠ [])
    (whole : ∀ chunk ∈ chunks, Chunk.Whole separator chunk)
    (part : added.Sublist (newChunks separator new)) (visible : ∀ chunk ∈ added, chunk.text ≠ [])
    (fresh : ∀ chunk ∈ added, key separator chunk ∉ present separator chunks)
    (distinct : (added.map (key separator)).Nodup) :
    (Chunk.close separator (place added chunks)).flatten =
        (Chunk.close separator (spliced added chunks)).flatten ↔
      ClosesEach separator added := by
  by_cases any : added = []
  · simp [any, place, ClosesEach]
  have block := complete_block_not_mem any (fun _ => whole) part visible fresh
  have otherBlock : ∀ chunk ∈ [Chunk.complete separator (added.flatMap NewChunk.text)],
      chunk ∉ Chunk.completeInner separator chunks := by
    intro chunk member
    rwa [List.mem_singleton.mp member]
  have otherKeys : ∀ chunk ∈ added.map (key separator),
      chunk ∉ Chunk.completeInner separator chunks := by
    intro chunk member inside
    obtain ⟨other, there, rfl⟩ := List.mem_map.mp member
    exact fresh other there (List.mem_append_left _ inside)
  rw [Chunk.close, Chunk.close, completeInner_place any some, completeInner_spliced added some,
    FirstOccurrences.eraseDups_insert _ (List.pairwise_singleton _ _) otherBlock,
    FirstOccurrences.eraseDups_insert _ distinct otherKeys]
  simp only [List.flatten_append, List.flatten_singleton, List.append_cancel_right_eq,
    List.append_cancel_left_eq]
  exact (or_iff_right any).symm

theorem updated_ne_nil : updated matcher separator existing new ≠ [] := by
  have length := (paired_pairing matcher separator existing new).length_update
  intro empty
  rw [show update _ _ = [] from empty] at length
  exact Chunk.split_ne_nil separator existing (List.eq_nil_of_length_eq_zero length.symm)

theorem mem_close_spliced {chunk : Text}
    (member : chunk ∈ Chunk.completeInner separator (updated matcher separator existing new) ∨
      ∃ added ∈ additions matcher separator existing new, key separator added = chunk) :
    chunk ∈ Chunk.close separator (spliced (additions matcher separator existing new)
      (updated matcher separator existing new)) := by
  rw [Chunk.close, List.mem_eraseDups]
  apply mem_completeInner_spliced
  rcases member with old | added
  · exact Or.inl old
  · exact Or.inr ⟨updated_ne_nil, added⟩

theorem content_merge_iff (nonempty : separator ≠ []) :
    (merge matcher separator existing new).content =
        (Chunk.close separator (spliced (additions matcher separator existing new)
          (updated matcher separator existing new))).flatten ↔
      ClosesEach separator (additions matcher separator existing new) := by
  rw [content, chunks_merge]
  exact flatten_close_place_iff updated_ne_nil (fun _ => whole_of_mem_updated nonempty)
    additions_sublist (fun _ added => (settle_added_spec added).1)
    (fun _ added => (settle_added_spec added).2.1) (nodup_map_key_settle_added _ _)

/-- All but the last of the added chunks are closed, so only the last may be joined by what is
before it. -/
theorem closesEach_additions
    (apart : ∀ chunk ∈ additions matcher separator existing new,
      Chunk.Apart separator chunk.text) :
    ClosesEach separator (additions matcher separator existing new) := by
  have part := (@additions_sublist matcher separator existing new).map NewChunk.text
  rw [map_text_newChunks] at part
  rcases List.eq_nil_or_concat' (additions matcher separator existing new) with
    none | ⟨init, tail, shape⟩
  · exact Or.inl none
  · rw [shape, List.map_append, List.map_singleton] at part
    rw [shape]
    exact closesEach_of_apart (Chunk.closed_of_sublist_split part) (apart tail (by simp [shape]))

theorem content_merge (nonempty : separator ≠ [])
    (apart : ∀ chunk ∈ additions matcher separator existing new,
      Chunk.Apart separator chunk.text) :
    (merge matcher separator existing new).content =
      (Chunk.close separator (spliced (additions matcher separator existing new)
        (updated matcher separator existing new))).flatten :=
  (content_merge_iff nonempty).mpr (closesEach_additions apart)

theorem apart_of_mem_additions {mark : CodePoint} {chunk : NewChunk}
    (added : chunk ∈ additions matcher [mark] existing new) : Chunk.Apart [mark] chunk.text :=
  Chunk.apart_mark
    (whole_of_mem_newChunks (List.cons_ne_nil mark []) (additions_sublist.subset added))
    (settle_added_spec added).1

theorem whole_of_mem_spliced (nonempty : separator ≠ []) {chunk : Text}
    (member : chunk ∈ spliced (additions matcher separator existing new)
      (updated matcher separator existing new)) : Chunk.Whole separator chunk := by
  simp only [spliced, List.mem_append, List.mem_map] at member
  rcases member with (old | ⟨other, added, rfl⟩) | old
  · exact whole_of_mem_updated nonempty (List.mem_of_mem_take old)
  · exact whole_of_mem_newChunks nonempty (additions_sublist.subset added)
  · exact whole_of_mem_updated nonempty (List.mem_of_mem_drop old)

/-- Joined and cut again, the closed chunks come back. -/
theorem split_close_spliced (nonempty : separator ≠ []) :
    ∃ last ending, (updated matcher separator existing new).getLast? = some last ∧
      Chunk.Ending separator last ending ∧
      Chunk.split separator (Chunk.close separator (spliced
          (additions matcher separator existing new)
          (updated matcher separator existing new))).flatten =
        Chunk.close separator (spliced (additions matcher separator existing new)
          (updated matcher separator existing new)) ++ ending := by
  rcases List.eq_nil_or_concat' (updated matcher separator existing new) with empty | shape
  · exact (updated_ne_nil empty).elim
  obtain ⟨front, last, shape⟩ := shape
  obtain ⟨inner, splicedEq⟩ :=
    spliced_concat (additions matcher separator existing new) front last
  have whole := fun chunk => @whole_of_mem_spliced matcher separator existing new nonempty chunk
  rw [shape, splicedEq] at whole
  obtain ⟨ending, atEnd, cut⟩ := Chunk.split_close nonempty
    (fun chunk inside => whole chunk (List.mem_append_left _ inside))
    (whole last (List.mem_append_right _ List.mem_cons_self))
  refine ⟨last, ending, by simp [shape], atEnd, ?_⟩
  rw [shape, splicedEq, cut]

theorem split_content_merge (nonempty : separator ≠ [])
    (apart : ∀ chunk ∈ additions matcher separator existing new,
      Chunk.Apart separator chunk.text) :
    ∃ last ending, (updated matcher separator existing new).getLast? = some last ∧
      Chunk.Ending separator last ending ∧
      Chunk.split separator (merge matcher separator existing new).content =
        Chunk.close separator (spliced (additions matcher separator existing new)
          (updated matcher separator existing new)) ++ ending := by
  rw [content_merge nonempty apart]
  exact split_close_spliced nonempty

end FontScaffold.Merge
