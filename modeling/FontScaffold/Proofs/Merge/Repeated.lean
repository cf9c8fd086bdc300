import FontScaffold.Proofs.Chunk.Match
import FontScaffold.Proofs.Merge.Unlike

set_option autoImplicit false

namespace FontScaffold.Merge

variable {separator existing new : Text}

/-- The merge gives all chunks back: none repeats, each stays or gives way to a copy, and none is
added. -/
structure Undisturbed (separator existing new : Text) : Prop where
  distinct : (Chunk.split separator existing).Nodup
  restoring : Restoring separator (Chunk.split separator existing)
    (pairing Matcher.standard separator existing new).1
  none : additions Matcher.standard separator existing new = []

/-- Completion changes what the chunk matches, or does not look at the chunk alone. -/
def Unsteady (separator chunk : Text) : Prop :=
  Chunk.tokens separator (Chunk.complete separator chunk) ≠ Chunk.tokens separator chunk ∨
    ¬Chunk.Apart separator chunk

section Choices

variable {matcher : Matcher} {olds : List Text} {free left : List NewChunk}
  {choices : List (Option NewChunk)}

/-- An old chunk is still there, or it gave way to a chunk that matches it. -/
theorem Paired.mem_update_or (paired : Paired matcher separator olds free choices left)
    {old : Text} (member : old ∈ olds) :
    old ∈ update olds choices ∨
      ∃ new, some new ∈ choices ∧ matcher.accepts separator new.text old := by
  induction paired with
  | nil free => cases member
  | stay _ _ ih =>
      rcases List.mem_cons.mp member with rfl | member
      · exact Or.inl List.mem_cons_self
      · rcases ih member with there | ⟨new, taken, accepted⟩
        · exact Or.inl (List.mem_cons_of_mem _ there)
        · exact Or.inr ⟨new, List.mem_cons_of_mem _ taken, accepted⟩
  | @giveWay first olds _ _ _ new choices _ accepted _ ih =>
      rcases List.mem_cons.mp member with rfl | member
      · exact Or.inr ⟨new, List.mem_cons_self, accepted⟩
      · rcases ih member with there | ⟨new, taken, accepted⟩
        · exact Or.inl (List.mem_cons_of_mem _ there)
        · exact Or.inr ⟨new, List.mem_cons_of_mem _ taken, accepted⟩

theorem Paired.text_mem_update (paired : Paired matcher separator olds free choices left)
    {new : NewChunk} (taken : some new ∈ choices) : new.text ∈ update olds choices := by
  induction paired with
  | nil free => cases taken
  | stay _ _ ih => exact List.mem_cons_of_mem _ (ih (by simpa using taken))
  | @giveWay first olds _ _ _ other choices _ _ _ ih =>
      rcases List.mem_cons.mp taken with same | taken
      · cases same
        exact List.mem_cons_self
      · exact List.mem_cons_of_mem _ (ih taken)

theorem Restoring.mem_update_or (restoring : Restoring separator olds choices) {old : Text}
    (member : old ∈ olds) :
    old ∈ update olds choices ∨
      ∃ new, some new ∈ choices ∧ key separator new = Chunk.complete separator old := by
  induction restoring with
  | nil => cases member
  | stay _ ih =>
      rcases List.mem_cons.mp member with rfl | member
      · exact Or.inl List.mem_cons_self
      · rcases ih member with there | ⟨new, taken, same⟩
        · exact Or.inl (List.mem_cons_of_mem _ there)
        · exact Or.inr ⟨new, List.mem_cons_of_mem _ taken, same⟩
  | @copy first olds new choices same _ _ ih =>
      rcases List.mem_cons.mp member with rfl | member
      · exact Or.inr ⟨new, List.mem_cons_self, same⟩
      · rcases ih member with there | ⟨new, taken, same⟩
        · exact Or.inl (List.mem_cons_of_mem _ there)
        · exact Or.inr ⟨new, List.mem_cons_of_mem _ taken, same⟩

/-- Where a chunk that is left matches an old one, that one gave way, and to its copy if the choice
restores. -/
theorem Paired.copy_of_left (paired : Paired matcher separator olds free choices left)
    (restoring : Restoring separator olds choices) {new : NewChunk} (unused : new ∈ left)
    {old : Text} (member : old ∈ olds) (accepted : matcher.accepts separator new.text old) :
    ∃ other, some other ∈ choices ∧ key separator other = Chunk.complete separator old := by
  induction paired with
  | nil free => cases member
  | stay refused later ih =>
      cases restoring with
      | stay rest =>
          rcases List.mem_cons.mp member with rfl | member
          · exact (refused new (later.left_sublist.subset unused) accepted).elim
          · obtain ⟨other, taken, same⟩ := ih rest unused member
            exact ⟨other, List.mem_cons_of_mem _ taken, same⟩
  | @giveWay first olds _ _ _ other choices _ _ _ ih =>
      cases restoring with
      | copy same _ rest =>
          rcases List.mem_cons.mp member with rfl | member
          · exact ⟨other, List.mem_cons_self, same⟩
          · obtain ⟨other, taken, same⟩ := ih rest unused member
            exact ⟨other, List.mem_cons_of_mem _ taken, same⟩

end Choices

section Members

variable {matcher : Matcher}

theorem mem_completeInner_of_present {chunks : List Text} {chunk : Text}
    (member : chunk ∈ present separator chunks) :
    chunk ∈ Chunk.completeInner separator chunks ∨
      ∃ last ∈ Chunk.completeInner separator chunks, last ≠ [] ∧
        Chunk.complete separator last = chunk := by
  rcases List.eq_nil_or_concat' chunks with rfl | ⟨front, last, rfl⟩
  · cases member
  · rw [present, List.mem_append, List.getLast?_concat] at member
    rcases member with inner | atEnd
    · exact Or.inl inner
    · by_cases none : last = []
      · simp [none] at atEnd
      · simp only [none, ↓reduceIte, List.mem_singleton] at atEnd
        exact Or.inr ⟨last, mem_completeInner_append.mpr (Or.inr rfl), none, atEnd.symm⟩

theorem mem_split_content (nonempty : separator ≠ [])
    (apart : ∀ chunk ∈ additions matcher separator existing new,
      Chunk.Apart separator chunk.text) {chunk : Text}
    (member : chunk ∈ Chunk.completeInner separator (updated matcher separator existing new) ∨
      ∃ added ∈ additions matcher separator existing new, key separator added = chunk) :
    chunk ∈ Chunk.split separator (merge matcher separator existing new).content := by
  obtain ⟨_, ending, _, _, cut⟩ := split_content_merge nonempty apart
  rw [cut]
  exact List.mem_append_left ending (mem_close_spliced member)

end Members

theorem Paired.text_ne_nil {olds : List Text} {free left : List NewChunk}
    {choices : List (Option NewChunk)}
    (paired : Paired Matcher.standard separator olds free choices left) {new : NewChunk}
    (taken : some new ∈ choices) : new.text ≠ [] := by
  obtain ⟨old, _, accepted⟩ := paired.accepts taken
  intro none
  rw [none, Matcher.accepts_comm] at accepted
  exact Matcher.not_accepts_nil separator old accepted

section Unchanged

/-- A merge that changes nothing adds nothing steady: what took the place of such a chunk would
match it, and so it would have been dropped. -/
theorem additions_eq_nil_of_unchanged (nonempty : separator ≠ [])
    (steady : ∀ chunk ∈ additions Matcher.standard separator existing new,
      ¬Unsteady separator chunk.text)
    (same : (merge Matcher.standard separator existing new).content = existing) :
    additions Matcher.standard separator existing new = [] := by
  rw [List.eq_nil_iff_forall_not_mem]
  intro chunk added
  have apart : ∀ chunk ∈ additions Matcher.standard separator existing new,
      Chunk.Apart separator chunk.text := by
    intro chunk member
    by_contra joined
    exact steady chunk member (Or.inr joined)
  have tokens : Chunk.tokens separator (key separator chunk) =
      Chunk.tokens separator chunk.text := by
    by_contra changed
    exact steady chunk added (Or.inl changed)
  have inside := mem_split_content nonempty apart (Or.inr ⟨chunk, added, rfl⟩)
  rw [same] at inside
  obtain ⟨_, unknown, refused⟩ := settle_added_spec added
  have paired := paired_pairing Matcher.standard separator existing new
  rcases paired.mem_update_or inside with there | ⟨other, taken, accepted⟩
  · apply unknown
    have present := @complete_mem_present separator _ _ there
      (Chunk.complete_ne_nil nonempty chunk.text)
    rwa [key, Chunk.complete_complete] at present
  · apply refused other (mem_takenChunks_iff.mpr taken)
    rw [Matcher.accepts_comm]
    rwa [Matcher.accepts_congr rfl tokens] at accepted

theorem undisturbed_of_unchanged (nonempty : separator ≠ [])
    (steady : ∀ chunk ∈ additions Matcher.standard separator existing new,
      ¬Unsteady separator chunk.text)
    (same : (merge Matcher.standard separator existing new).content = existing) :
    Undisturbed separator existing new := by
  have none := additions_eq_nil_of_unchanged nonempty steady same
  have paired := paired_pairing Matcher.standard separator existing new
  have apart : ∀ chunk ∈ additions Matcher.standard separator existing new,
      Chunk.Apart separator chunk.text := by simp [none]
  have distinct := nodup_split_content_merge nonempty apart
  obtain ⟨last, ending, atEnd, isEnding, cut⟩ := split_content_merge nonempty apart
  rw [same] at distinct cut
  rw [none, spliced_nil] at cut
  have length := paired.length_update
  refine ⟨distinct, ?_, none⟩
  rw [paired.restoring_iff (Chunk.completeInner_split separator existing)]
  cases isEnding with
  | isOpen _ =>
      rw [List.append_nil] at cut
      have same := (FirstOccurrences.eraseDups_sublist (Chunk.completeInner separator
        (updated Matcher.standard separator existing new))).eq_of_length (by
          rw [← Chunk.close, ← cut, Chunk.length_completeInner]
          exact length.symm)
      exact same.symm.trans cut.symm
  | isClosed closed =>
      -- The last old chunk is empty; no chunk takes its place, so that it is still the last.
      obtain ⟨front, back, shape, short, _⟩ := paired.update_append cut
        fun other _ => Matcher.not_accepts_nil separator other.text
      rw [List.length_eq_zero_iff.mp short] at shape
      rw [show updated _ _ _ _ = front ++ [[]] from shape, List.getLast?_concat] at atEnd
      cases atEnd
      exact (closed.ne_nil nonempty rfl).elim

theorem newChunks_whole (new : Text) : newChunks [] new = [⟨new, 0⟩] := by
  rw [newChunks, Chunk.split_whole]
  rfl

theorem pairing_whole (existing new : Text) :
    pairing Matcher.standard [] existing new =
      if Matcher.standard.accepts [] new existing then ([some ⟨new, 0⟩], [])
      else ([none], [⟨new, 0⟩]) := by
  rw [pairing, newChunks_whole, Chunk.split_whole]
  by_cases accepted : Matcher.standard.accepts [] new existing <;> simp [pair, accepted]

/-- Under an empty separator a text that is added comes before the old one, which shows. -/
theorem additions_eq_nil_of_refused (refused : ¬Matcher.standard.accepts [] new existing)
    (same : (merge Matcher.standard [] existing new).content = existing) :
    additions Matcher.standard [] existing new = [] := by
  have stays : updated Matcher.standard [] existing new = [existing] := by
    rw [updated, pairing_whole, if_neg refused, Chunk.split_whole]
    rfl
  have few := @additions_sublist Matcher.standard [] existing new
  rw [newChunks_whole] at few
  rcases List.sublist_singleton.mp few with none | one
  · exact none
  have added : ⟨new, 0⟩ ∈ additions Matcher.standard [] existing new := by simp [one]
  obtain ⟨visible, unknown, _⟩ := settle_added_spec added
  have different : new ≠ existing := by
    rintro rfl
    apply unknown
    rw [stays]
    exact complete_mem_present List.mem_cons_self visible
  have placed : place [⟨new, 0⟩] [existing] = [new, existing] := by
    simp [place, Chunk.insertBeforeLast, Chunk.lastVisible]
  have closed : Chunk.close [] [new, existing] = [new, existing] := by
    have whole : Chunk.complete [] new = new := List.append_nil new
    unfold Chunk.close
    rw [Chunk.completeInner, Chunk.completeInner, whole]
    exact FirstOccurrences.eraseDups_of_nodup (by simpa using different)
  rw [content, chunks_merge, one, stays, placed, closed, List.flatten_cons,
    List.flatten_singleton] at same
  exact (visible (List.append_left_eq_self.mp same)).elim

/-- An empty separator cuts nothing: the old text stays, or the new one takes its place. -/
theorem undisturbed_of_unchanged_whole
    (same : (merge Matcher.standard [] existing new).content = existing) :
    Undisturbed [] existing new := by
  have single : (Chunk.split [] existing).Nodup := by
    rw [Chunk.split_whole]
    exact List.nodup_singleton existing
  by_cases accepted : Matcher.standard.accepts [] new existing
  · have choice := (pairing_whole existing new).trans (if_pos accepted)
    have none : additions Matcher.standard [] existing new = [] := by
      rw [additions, choice]
      rfl
    have content : (merge Matcher.standard [] existing new).content = new := by
      rw [content, chunks_merge, none, updated, choice, Chunk.split_whole]
      exact List.flatten_singleton
    refine ⟨single, ?_, none⟩
    rw [Chunk.split_whole, choice]
    exact .copy (by rw [← same, content]; rfl) (fun _ => content.symm.trans same) .nil
  · refine ⟨single, ?_, additions_eq_nil_of_refused accepted same⟩
    rw [Chunk.split_whole, pairing_whole, if_neg accepted]
    exact .stay .nil

theorem unchanged_of_undisturbed (undisturbed : Undisturbed separator existing new) :
    (merge Matcher.standard separator existing new).content = existing :=
  content_merge_of_restoring undisturbed.distinct undisturbed.restoring undisturbed.none

theorem undisturbed_of_steady
    (steady : ∀ chunk ∈ additions Matcher.standard separator existing new,
      ¬Unsteady separator chunk.text)
    (same : (merge Matcher.standard separator existing new).content = existing) :
    Undisturbed separator existing new := by
  by_cases empty : separator = []
  · subst empty
    exact undisturbed_of_unchanged_whole same
  · exact undisturbed_of_unchanged empty steady same

end Unchanged

section OneMark

variable {mark : CodePoint}

theorem tokens_complete_mark {chunk : Text} (whole : Chunk.Whole [mark] chunk) :
    Chunk.tokens [mark] (Chunk.complete [mark] chunk) = Chunk.tokens [mark] chunk :=
  Chunk.tokens_congr (Chunk.dropSeparator_complete whole)

theorem not_unsteady_mark {chunk : NewChunk}
    (added : chunk ∈ additions Matcher.standard [mark] existing new) :
    ¬Unsteady [mark] chunk.text := by
  rintro (changed | joined)
  · exact changed (tokens_complete_mark
      (whole_of_mem_newChunks (List.cons_ne_nil mark []) (additions_sublist.subset added)))
  · exact joined (apart_of_mem_additions added)

theorem tokens_eq_of_complete_eq {first second : Text} (left : Chunk.Whole [mark] first)
    (right : Chunk.Whole [mark] second)
    (same : Chunk.complete [mark] first = Chunk.complete [mark] second) :
    Chunk.tokens [mark] first = Chunk.tokens [mark] second := by
  rw [← tokens_complete_mark left, same, tokens_complete_mark right]

theorem exists_copy_of_present {chunk : Text}
    (present : Chunk.complete [mark] chunk ∈
      present [mark] (updated Matcher.standard [mark] existing new)) :
    ∃ old ∈ Chunk.split [mark] (merge Matcher.standard [mark] existing new).content, old ≠ [] ∧
      Chunk.complete [mark] old = Chunk.complete [mark] chunk := by
  have nonempty : [mark] ≠ [] := List.cons_ne_nil mark []
  have merged : ∀ old, old ∈ Chunk.completeInner [mark]
      (updated Matcher.standard [mark] existing new) →
        old ∈ Chunk.split [mark] (merge Matcher.standard [mark] existing new).content :=
    fun old inside =>
      mem_split_content nonempty (fun _ added => apart_of_mem_additions added) (Or.inl inside)
  rcases mem_completeInner_of_present present with inside | ⟨last, inside, some, same⟩
  · exact ⟨Chunk.complete [mark] chunk, merged _ inside, Chunk.complete_ne_nil nonempty _,
      Chunk.complete_complete _ _⟩
  · exact ⟨last, merged _ inside, some, same⟩

/-- A new chunk is in the merged text, completed or not, or one is that it matches. -/
theorem exists_in_merged {chunk : NewChunk} (member : chunk ∈ newChunks [mark] new)
    (visible : chunk.text ≠ []) :
    ∃ old ∈ Chunk.split [mark] (merge Matcher.standard [mark] existing new).content, old ≠ [] ∧
      (Chunk.complete [mark] old = key [mark] chunk ∨
        Matcher.standard.accepts [mark] chunk.text old) := by
  have nonempty : [mark] ≠ [] := List.cons_ne_nil mark []
  have paired := paired_pairing Matcher.standard [mark] existing new
  have copied : ∀ other, some other ∈ (pairing Matcher.standard [mark] existing new).1 →
      ∃ old ∈ Chunk.split [mark] (merge Matcher.standard [mark] existing new).content,
        old ≠ [] ∧ Chunk.complete [mark] old = key [mark] other :=
    fun other taken => exists_copy_of_present
      (complete_mem_present (paired.text_mem_update taken) (paired.text_ne_nil taken))
  have parts := member
  rw [← paired.perm.mem_iff, List.mem_append, List.mem_filterMap] at parts
  rcases parts with ⟨choice, taken, same⟩ | unused
  · rw [show choice = some chunk from same] at taken
    obtain ⟨old, inside, some, copy⟩ := copied chunk taken
    exact ⟨old, inside, some, Or.inl copy⟩
  rcases settle_complete unused with empty | present | ⟨other, added, same⟩ | ⟨twin, used, accepted⟩
  · exact (visible empty).elim
  · obtain ⟨old, inside, some, copy⟩ := exists_copy_of_present present
    exact ⟨old, inside, some, Or.inl copy⟩
  · refine ⟨key [mark] other, ?_, Chunk.complete_ne_nil nonempty _, Or.inl ?_⟩
    · exact mem_split_content nonempty (fun _ added => apart_of_mem_additions added)
        (Or.inr ⟨other, added, rfl⟩)
    · rw [← same]
      exact Chunk.complete_complete _ _
  · have taken := mem_takenChunks_iff.mp used
    obtain ⟨old, inside, some, copy⟩ := copied twin taken
    refine ⟨old, inside, some, Or.inr ?_⟩
    have tokens := tokens_eq_of_complete_eq ((Chunk.cut_split nonempty _).whole inside)
      (whole_of_mem_newChunks nonempty (paired.mem_free taken)) copy
    rwa [Matcher.accepts_congr rfl tokens]

/-- Where the second choice restores the merged text, nothing is left to add. -/
theorem additions_eq_nil_of_restoring
    (restoring : Restoring [mark]
      (Chunk.split [mark] (merge Matcher.standard [mark] existing new).content)
      (pairing Matcher.standard [mark] (merge Matcher.standard [mark] existing new).content
      new).1) :
    additions Matcher.standard [mark] (merge Matcher.standard [mark] existing new).content new =
      [] := by
  have nonempty : [mark] ≠ [] := List.cons_ne_nil mark []
  rw [List.eq_nil_iff_forall_not_mem]
  intro chunk added
  obtain ⟨visible, unknown, refused⟩ := settle_added_spec added
  have paired := paired_pairing Matcher.standard [mark]
    (merge Matcher.standard [mark] existing new).content new
  have whole : ∀ other : NewChunk, some other ∈ (pairing Matcher.standard [mark]
      (merge Matcher.standard [mark] existing new).content new).1 →
        Chunk.Whole [mark] other.text :=
    fun other taken => whole_of_mem_newChunks nonempty (paired.mem_free taken)
  obtain ⟨old, inside, some, copy | accepted⟩ :=
    @exists_in_merged existing new mark chunk (additions_sublist.subset added) visible
  · -- Its copy is still present, in its own place or as what took it.
    rcases restoring.mem_update_or inside with there | ⟨other, taken, same⟩
    · apply unknown
      have present := @complete_mem_present [mark] _ _ there some
      rwa [copy] at present
    · apply unknown
      have present := @complete_mem_present [mark] _ _ (paired.text_mem_update taken)
        (paired.text_ne_nil taken)
      rwa [← key, same, copy] at present
  · -- What took the place of the chunk it matches would have kept it from being added.
    obtain ⟨other, taken, same⟩ := paired.copy_of_left restoring
      ((settle_added_sublist _ _).subset added) inside accepted
    apply refused other (mem_takenChunks_iff.mpr taken)
    have tokens := tokens_eq_of_complete_eq (whole other taken)
      ((Chunk.cut_split nonempty _).whole inside) same
    rwa [Matcher.accepts_congr rfl tokens]

end OneMark

/-- When merging the same text once more changes nothing: exactly if it disturbs nothing, as long as
no unsteady chunk is added. For a separator of one character this rests on the choice alone: each
chunk that gives way must give way to its copy. -/
theorem merge_again_iff (separator existing new : Text) :
    let merged := (merge Matcher.standard separator existing new).content
    (Undisturbed separator merged new →
        (merge Matcher.standard separator merged new).content = merged) ∧
      ((merge Matcher.standard separator merged new).content = merged →
        (∀ chunk ∈ additions Matcher.standard separator merged new,
          ¬Unsteady separator chunk.text) → Undisturbed separator merged new) ∧
      (separator.length = 1 →
        ((merge Matcher.standard separator merged new).content = merged ↔
          Restoring separator (Chunk.split separator merged)
            (pairing Matcher.standard separator merged new).1)) := by
  intro merged
  refine ⟨unchanged_of_undisturbed, fun same steady => undisturbed_of_steady steady same, ?_⟩
  intro one
  obtain ⟨mark, rfl⟩ := List.length_eq_one_iff.mp one
  constructor
  · intro same
    exact (undisturbed_of_steady (fun _ added => not_unsteady_mark added) same).restoring
  · intro restoring
    exact unchanged_of_undisturbed ⟨nodup_split_content_merge (List.cons_ne_nil mark [])
      (fun _ added => apart_of_mem_additions added), restoring,
      additions_eq_nil_of_restoring restoring⟩

/-- A short line is merged in place of a longer one; the second time the longer one takes its place
again. -/
theorem merge_twice_changes :
    let merged := (merge Matcher.standard [.char '\n'] "a b c d".text "a b c e\na b c".text).content
    (merge Matcher.standard [.char '\n'] merged "a b c e\na b c".text).content ≠ merged := by
  decide +kernel

theorem comments_merge_again :
    let new := "export const A = 2\nexport const B = 3\n".text
    let merged := (merge Matcher.standard [.char '\n'] "// first\nexport const A = 1".text
      new).content
    [CodePoint.char '\n'].length = 1 ∧ Restoring [.char '\n'] (Chunk.split [.char '\n'] merged)
      (pairing Matcher.standard [.char '\n'] merged new).1 :=
  ⟨rfl, ((merge_again_iff _ _ _).2.2 rfl).mp (by decide +kernel)⟩

end FontScaffold.Merge
