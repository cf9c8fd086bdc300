import FontScaffold.Proofs.Merge.Unlike
import Mathlib.Data.List.Perm.Subperm

set_option autoImplicit false

namespace FontScaffold.Merge

variable {matcher : Matcher} {separator : Text}

section Lists

variable {α : Type} {items : List α} {first second : α → Bool}

theorem find_eraseP (apart : ∀ item ∈ items, first item → second item = false) :
    (items.eraseP first).find? second = items.find? second := by
  induction items with
  | nil => rfl
  | cons item items ih =>
      by_cases here : first item
      · rw [List.eraseP_cons_of_pos here,
          List.find?_cons_of_neg (by simp [apart item List.mem_cons_self here])]
      · have rest := ih fun other member => apart other (List.mem_cons_of_mem item member)
        rw [List.eraseP_cons_of_neg here, List.find?_cons, List.find?_cons, rest]

theorem eraseP_eq_filter (alone : items.Pairwise fun one other => first one → first other = false) :
    items.eraseP first = items.filter fun item => !first item := by
  induction items with
  | nil => rfl
  | cons item items ih =>
      obtain ⟨others, alone⟩ := List.pairwise_cons.mp alone
      by_cases here : first item
      · rw [List.eraseP_cons_of_pos here, List.filter_cons_of_neg (by simp [here])]
        symm
        rw [List.filter_eq_self]
        intro other member
        simp [others other member here]
      · rw [List.eraseP_cons_of_neg here, List.filter_cons_of_pos (by simp [here]), ih alone]

end Lists

/-- No new chunk matches two old ones, and no two new ones match the same. -/
structure Exclusive (matcher : Matcher) (separator : Text) (olds : List Text)
    (news : List NewChunk) : Prop where
  oneOld : olds.Pairwise fun first second => ∀ new ∈ news,
    matcher.accepts separator new.text first → matcher.accepts separator new.text second = false
  oneNew : news.Pairwise fun first second => ∀ old ∈ olds,
    matcher.accepts separator first.text old → matcher.accepts separator second.text old = false

theorem pair_eq_of_exclusive {olds : List Text} {news : List NewChunk}
    (exclusive : Exclusive matcher separator olds news) :
    pair matcher separator olds news =
      (olds.map fun old => news.find? fun new => matcher.accepts separator new.text old,
        news.filter fun new => olds.all fun old => !matcher.accepts separator new.text old) := by
  induction olds generalizing news with
  | nil => simp [pair]
  | cons old olds ih =>
      obtain ⟨others, oneOld⟩ := List.pairwise_cons.mp exclusive.oneOld
      have alone : news.Pairwise fun first second =>
          matcher.accepts separator first.text old →
            matcher.accepts separator second.text old = false :=
        exclusive.oneNew.imp fun separate => separate old List.mem_cons_self
      have fewer : (news.eraseP fun new => matcher.accepts separator new.text old).Sublist news :=
        List.eraseP_sublist
      have rest := @ih (news.eraseP fun new => matcher.accepts separator new.text old)
        ⟨oneOld.imp fun separate new member => separate new (fewer.subset member),
          (exclusive.oneNew.imp fun separate other member =>
            separate other (List.mem_cons_of_mem old member)).sublist fewer⟩
      unfold pair
      simp only [rest, List.map_cons]
      congr 1
      · congr 1
        apply List.map_congr_left
        intro other member
        exact find_eraseP fun new inside => others other member new inside
      · rw [eraseP_eq_filter alone, List.filter_filter]
        apply List.filter_congr
        intro new _
        rw [List.all_cons, Bool.and_comm]

/-- The new chunk that an old one gives way to, or the old chunk itself. -/
def successor (matcher : Matcher) (separator new old : Text) : Text :=
  ((Chunk.split separator new).find? fun chunk => matcher.accepts separator chunk old).getD old

variable {existing new : Text}

theorem successor_of_refused {old : Text}
    (refused : ∀ chunk ∈ Chunk.split separator new,
      matcher.accepts separator chunk old = false) :
    successor matcher separator new old = old := by
  have none : ((Chunk.split separator new).find? fun chunk =>
      matcher.accepts separator chunk old) = none := by
    rw [List.find?_eq_none]
    intro chunk member
    rw [refused chunk member]
    exact Bool.false_ne_true
  rw [successor, none, Option.getD_none]

theorem map_text_find (old : Text) :
    ((newChunks separator new).find? fun chunk => matcher.accepts separator chunk.text old).map
        NewChunk.text =
      (Chunk.split separator new).find? fun chunk => matcher.accepts separator chunk old := by
  rw [← map_text_newChunks separator new, List.find?_map]
  rfl

theorem updated_eq_of_exclusive
    (exclusive : Exclusive matcher separator (Chunk.split separator existing)
      (newChunks separator new)) :
    updated matcher separator existing new =
      (Chunk.split separator existing).map (successor matcher separator new) := by
  rw [updated, pairing, pair_eq_of_exclusive exclusive, update, List.zipWith_map_right,
    List.zipWith_self]
  apply List.map_congr_left
  intro old _
  rw [map_text_find]
  rfl

theorem additions_eq_left (unlike : Unlike matcher separator (newChunks separator new)) :
    additions matcher separator existing new = (pairing matcher separator existing new).2 := by
  have part : (additions matcher separator existing new).Sublist
      (pairing matcher separator existing new).2 := settle_added_sublist _ _
  have left := (paired_pairing matcher separator existing new).left_sublist
  have distinct := (nodup_newChunks separator new).sublist left
  apply part.eq_of_length_le
  exact (List.subperm_of_subset distinct
    fun chunk unused => mem_additions_of_left unlike unused).length_le

theorem map_text_additions (unlike : Unlike matcher separator (newChunks separator new))
    (exclusive : Exclusive matcher separator (Chunk.split separator existing)
      (newChunks separator new)) :
    (additions matcher separator existing new).map NewChunk.text =
      (Chunk.split separator new).filter fun chunk =>
        (Chunk.split separator existing).all fun old => !matcher.accepts separator chunk old := by
  rw [additions_eq_left unlike, pairing, pair_eq_of_exclusive exclusive,
    ← map_text_newChunks separator new, List.filter_map]
  rfl

theorem lastVisible_concat {front : List Text} {last : Text} (visible : Text.isVisible last) :
    Chunk.lastVisible (front ++ [last]) = front.length := by
  rw [Chunk.lastVisible, List.reverse_append, List.reverse_singleton, List.singleton_append,
    List.findIdx?_cons, if_pos visible]
  simp

/-- The merged text, chunk by chunk. -/
theorem content_merge_of_exclusive (nonempty : separator ≠ [])
    (unlike : Unlike matcher separator (newChunks separator new))
    (apart : ∀ chunk ∈ newChunks separator new, Chunk.Apart separator chunk.text)
    {inner : List Text} {last : Text} (shape : Chunk.split separator existing = inner ++ [last])
    (exclusive : Exclusive matcher separator (inner ++ [last]) (newChunks separator new))
    (visible : Text.isVisible (successor matcher separator new last)) :
    (merge matcher separator existing new).content =
      (inner.map (Chunk.complete separator ∘ successor matcher separator new) ++
        ((Chunk.split separator new).filter fun chunk =>
          (inner ++ [last]).all fun old => !matcher.accepts separator chunk old).map
            (Chunk.complete separator) ++
        [successor matcher separator new last]).eraseDups.flatten := by
  rw [← shape] at exclusive
  have added := @map_text_additions matcher separator existing new unlike exclusive
  have updates := updated_eq_of_exclusive exclusive
  rw [shape, List.map_append, List.map_singleton] at updates
  rw [shape] at added
  rw [content_merge nonempty fun chunk added => apart chunk (additions_sublist.subset added),
    Chunk.close, spliced, updates, lastVisible_concat visible, added,
    List.take_left, List.drop_left, Chunk.completeInner_append_singleton, List.map_append,
    List.map_map]

end FontScaffold.Merge
