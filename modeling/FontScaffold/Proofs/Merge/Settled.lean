import FontScaffold.Proofs.Merge.Result

set_option autoImplicit false

namespace FontScaffold.Merge

variable {matcher : Matcher} {separator : Text}

/-- Each old chunk stays or gives way to a copy: the same up to completion, the last one exactly. -/
inductive Restoring (separator : Text) : List Text → List (Option NewChunk) → Prop where
  | nil : Restoring separator [] []
  | stay {old : Text} {olds : List Text} {choices : List (Option NewChunk)}
      (later : Restoring separator olds choices) :
      Restoring separator (old :: olds) (none :: choices)
  | copy {old : Text} {olds : List Text} {new : NewChunk} {choices : List (Option NewChunk)}
      (same : key separator new = Chunk.complete separator old)
      (atEnd : olds = [] → new.text = old)
      (later : Restoring separator olds choices) :
      Restoring separator (old :: olds) (some new :: choices)

/-- A chunk in front of what completes to `olds` completes to `old` in front of them if it is its
copy. -/
theorem completeInner_cons_iff {old chunk : Text} {olds rest : List Text}
    (inner : Chunk.completeInner separator (old :: olds) = old :: olds)
    (length : rest.length = olds.length) :
    Chunk.completeInner separator (chunk :: rest) = old :: olds ↔
      Chunk.completeInner separator rest = olds ∧
        Chunk.complete separator chunk = Chunk.complete separator old ∧
        (olds = [] → chunk = old) := by
  by_cases last : olds = []
  · subst last
    have none : rest = [] := List.eq_nil_of_length_eq_zero length
    subst none
    constructor
    · intro same
      have head : chunk = old := List.head_eq_of_cons_eq same
      exact ⟨rfl, by rw [head], fun _ => head⟩
    · rintro ⟨_, _, head⟩
      rw [head rfl]
      rfl
  · have some : rest ≠ [] := by
      intro same
      subst same
      exact last (List.eq_nil_of_length_eq_zero length.symm)
    rw [Chunk.completeInner_cons separator chunk some, List.cons.injEq,
      Chunk.complete_head inner last]
    constructor
    · rintro ⟨head, tail⟩
      exact ⟨tail, head, fun none => (last none).elim⟩
    · rintro ⟨tail, head, _⟩
      exact ⟨head, tail⟩

/-- The update completes to the old chunks exactly if the choice restores them. -/
theorem Paired.restoring_iff {olds : List Text} {free left : List NewChunk}
    {choices : List (Option NewChunk)} (paired : Paired matcher separator olds free choices left)
    (inner : Chunk.completeInner separator olds = olds) :
    Restoring separator olds choices ↔
      Chunk.completeInner separator (update olds choices) = olds := by
  induction paired with
  | nil free => exact ⟨fun _ => rfl, fun _ => .nil⟩
  | @stay old olds free left choices refused later ih =>
      have head : update (old :: olds) (none :: choices) = old :: update olds choices := rfl
      rw [head, completeInner_cons_iff inner later.length_update,
        ← ih (Chunk.completeInner_tail inner)]
      constructor
      · intro restoring
        cases restoring with
        | stay later => exact ⟨later, rfl, fun _ => rfl⟩
      · rintro ⟨later, _⟩
        exact .stay later
  | @giveWay old olds before after left new choices refused accepted later ih =>
      have head : update (old :: olds) (some new :: choices) = new.text :: update olds choices :=
        rfl
      rw [head, completeInner_cons_iff inner later.length_update,
        ← ih (Chunk.completeInner_tail inner)]
      constructor
      · intro restoring
        cases restoring with
        | copy same atEnd later => exact ⟨later, same, atEnd⟩
      · rintro ⟨later, same, atEnd⟩
        exact .copy same atEnd later

/-- A merge that restores all chunks and adds none leaves a text without repeated chunks as it
is. -/
theorem content_merge_of_restoring {existing new : Text}
    (distinct : (Chunk.split separator existing).Nodup)
    (restoring : Restoring separator (Chunk.split separator existing)
      (pairing matcher separator existing new).1)
    (none : additions matcher separator existing new = []) :
    (merge matcher separator existing new).content = existing := by
  have paired := paired_pairing matcher separator existing new
  have same := (paired.restoring_iff (Chunk.completeInner_split separator existing)).mp restoring
  rw [content, chunks_merge, none]
  calc
    (Chunk.close separator (place [] (updated matcher separator existing new))).flatten =
        (Chunk.split separator existing).eraseDups.flatten := by
      unfold Chunk.close
      rw [← same]
      rfl
    _ = existing := by
      rw [FirstOccurrences.eraseDups_of_nodup distinct, Chunk.flatten_split]

/-- The first of the chunks that `new` matches is `new` itself, completed unless it is the last. -/
def ComesFirst (matcher : Matcher) (separator : Text) (new : NewChunk) (chunks : List Text) :
    Prop :=
  ∃ before chunk after, chunks = before ++ chunk :: after ∧
    key separator new = Chunk.complete separator chunk ∧ (after = [] → new.text = chunk) ∧
    matcher.accepts separator new.text chunk ∧
    ∀ other ∈ before, ¬matcher.accepts separator new.text other

theorem comesFirst_of_refused {new : NewChunk} {old : Text} {olds : List Text}
    (first : ComesFirst matcher separator new (old :: olds))
    (refused : ¬matcher.accepts separator new.text old) :
    ComesFirst matcher separator new olds := by
  obtain ⟨before, chunk, after, shape, copy, atEnd, accepted, others⟩ := first
  cases before with
  | nil =>
      simp only [List.nil_append, List.cons.injEq] at shape
      rw [← shape.1] at accepted
      exact (refused accepted).elim
  | cons head before =>
      simp only [List.cons_append, List.cons.injEq] at shape
      exact ⟨before, chunk, after, shape.2, copy, atEnd, accepted,
        fun other member => others other (List.mem_cons_of_mem head member)⟩

theorem copy_of_accepted {new : NewChunk} {old : Text} {olds : List Text}
    (first : ComesFirst matcher separator new (old :: olds))
    (accepted : matcher.accepts separator new.text old) :
    key separator new = Chunk.complete separator old ∧ (olds = [] → new.text = old) := by
  obtain ⟨before, chunk, after, shape, copy, atEnd, _, others⟩ := first
  cases before with
  | nil =>
      simp only [List.nil_append, List.cons.injEq] at shape
      obtain ⟨rfl, rfl⟩ := shape
      exact ⟨copy, atEnd⟩
  | cons head before =>
      simp only [List.cons_append, List.cons.injEq] at shape
      exact (others old (shape.1 ▸ List.mem_cons_self) accepted).elim

/-- If all new chunks come first, the choice restores the old chunks and leaves no new one. -/
theorem Paired.restoring_of_comesFirst {olds : List Text} {free left : List NewChunk}
    {choices : List (Option NewChunk)} (paired : Paired matcher separator olds free choices left)
    (first : ∀ new ∈ free, ComesFirst matcher separator new olds)
    (distinct : (free.map (key separator)).Nodup) :
    left = [] ∧ Restoring separator olds choices := by
  induction paired with
  | nil free =>
      refine ⟨?_, .nil⟩
      rw [List.eq_nil_iff_forall_not_mem]
      intro new member
      obtain ⟨before, chunk, after, shape, _⟩ := first new member
      cases before <;> cases shape
  | stay refused later ih =>
      have rest := ih
        (fun new member => comesFirst_of_refused (first new member) (refused new member)) distinct
      exact ⟨rest.1, .stay rest.2⟩
  | @giveWay old olds before after left new choices refused accepted later ih =>
      obtain ⟨copy, atEnd⟩ := copy_of_accepted (first new (by simp)) accepted
      have moved : (before ++ new :: after).Perm (new :: (before ++ after)) := List.perm_middle
      have shrunk := (moved.map (key separator)).nodup distinct
      obtain ⟨alone, distinct⟩ := List.nodup_cons.mp shrunk
      have others : ∀ other ∈ before ++ after, ComesFirst matcher separator other olds := by
        intro other member
        apply comesFirst_of_refused (first other
          (moved.mem_iff.mpr (List.mem_cons_of_mem new member)))
        intro again
        have same := (copy_of_accepted
          (first other (moved.mem_iff.mpr (List.mem_cons_of_mem new member))) again).1
        exact alone (copy.trans same.symm ▸ List.mem_map_of_mem member)
      have rest := ih others distinct
      exact ⟨rest.1, .copy copy atEnd rest.2⟩

/-- Where all new chunks come first in a text without repeated chunks, merging them changes
nothing. -/
theorem content_merge_of_comesFirst {existing new : Text}
    (chunks : (Chunk.split separator existing).Nodup)
    (first : ∀ chunk ∈ newChunks separator new,
      ComesFirst matcher separator chunk (Chunk.split separator existing))
    (distinct : ((newChunks separator new).map (key separator)).Nodup) :
    (merge matcher separator existing new).content = existing := by
  have paired := paired_pairing matcher separator existing new
  obtain ⟨none, restoring⟩ := paired.restoring_of_comesFirst first distinct
  apply content_merge_of_restoring chunks restoring
  rw [additions, none]
  rfl

end FontScaffold.Merge
