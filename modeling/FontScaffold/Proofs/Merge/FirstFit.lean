import FontScaffold.Proofs.Merge.Record
import Mathlib.Order.Nat

set_option autoImplicit false

namespace FontScaffold.Merge

section Greedy

variable (matcher : Matcher) (separator existing new : Text)

/-- The old chunk at the first position and the new one at the second score above the threshold. -/
def Fits (old index : Nat) : Prop :=
  ∃ chunk fresh, (Chunk.split separator existing)[old]? = some chunk ∧
    (Chunk.split separator new)[index]? = some fresh ∧
    matcher.threshold < (matcher.score separator fresh chunk).value

/-- The two fit, and no earlier old chunk took the new one. -/
def FitsFree (old index : Nat) : Prop :=
  Fits matcher separator existing new old index ∧
    ∀ pair ∈ (merge matcher separator existing new).replaced, pair.old < old → pair.new ≠ index

/-- The records of a greedy pairing in the order of the old chunks. -/
structure PairsGreedily : Prop where
  increasing : (merge matcher separator existing new).replaced.Pairwise fun first second =>
    first.old < second.old
  distinct : ((merge matcher separator existing new).replaced.map Replacement.new).Nodup
  chosen : ∀ old index,
    (∃ pair ∈ (merge matcher separator existing new).replaced, pair.old = old ∧ pair.new = index) ↔
      IsLeast { index | FitsFree matcher separator existing new old index } index
  maximal : ∀ old, (∀ pair ∈ (merge matcher separator existing new).replaced, pair.old ≠ old) →
    ∀ index, (∀ pair ∈ (merge matcher separator existing new).replaced, pair.new ≠ index) →
      ¬Fits matcher separator existing new old index

end Greedy

variable {matcher : Matcher} {separator existing new : Text}

section Choice

theorem find?_eq_some_iff_first {items : List NewChunk} {fits : NewChunk → Bool} {fresh : NewChunk}
    (ordered : items.Pairwise fun first second => first.index < second.index) :
    items.find? fits = some fresh ↔
      fresh ∈ items ∧ fits fresh ∧ ∀ other ∈ items, fits other → fresh.index ≤ other.index := by
  constructor
  · intro found
    obtain ⟨accepted, before, after, rfl, refused⟩ := List.find?_eq_some_iff_append.mp found
    refine ⟨List.mem_of_find?_eq_some found, accepted, fun other member fitting => ?_⟩
    rcases List.mem_append.mp member with earlier | here
    · have absent := refused other earlier
      simp [fitting] at absent
    · rcases List.mem_cons.mp here with rfl | later
      · exact Nat.le_refl _
      · exact Nat.le_of_lt (List.rel_of_pairwise_cons (List.pairwise_append.mp ordered).2.1 later)
  · rintro ⟨member, accepted, least⟩
    obtain ⟨before, after, rfl⟩ := List.append_of_mem member
    refine List.find?_eq_some_iff_append.mpr ⟨accepted, before, after, rfl, fun other earlier => ?_⟩
    have smaller := (List.pairwise_append.mp ordered).2.2 other earlier fresh List.mem_cons_self
    rw [Bool.not_eq_true', Bool.eq_false_iff]
    intro fitting
    have bound := least other (List.mem_append_left _ earlier) fitting
    omega

theorem filter_not_taken {before after : List NewChunk} {new : NewChunk}
    (absent : new ∉ before ++ after) (taken : List (Option NewChunk)) :
    (before ++ new :: after).filter (fun fresh => some fresh ∉ some new :: taken) =
      (before ++ after).filter fun fresh => some fresh ∉ taken := by
  rw [List.filter_append, List.filter_cons_of_neg (by simp), ← List.filter_append]
  apply List.filter_congr
  intro fresh member
  have other : fresh ≠ new := by
    rintro rfl
    exact absent member
  simp [other]

/-- What a chunk chooses is found among the new chunks that no chunk before it chose. -/
theorem Paired.choice_eq_find {olds : List Text} {free left : List NewChunk}
    {choices : List (Option NewChunk)} (paired : Paired matcher separator olds free choices left)
    (distinct : free.Nodup) {position : Nat} {old : Text} (there : olds[position]? = some old) :
    choices[position]? = some ((free.filter fun fresh => some fresh ∉ choices.take position).find?
      fun fresh => matcher.accepts separator fresh.text old) := by
  -- At the first position all are free; for a later one the pairing of the rest begins without the
  -- new chunk that the first position took.
  induction paired generalizing position with
  | nil free => cases there
  | @stay _ olds free _ choices refused _ ih =>
      cases position with
      | zero =>
          cases there
          have none := List.find?_eq_none.mpr refused
          simp [none]
      | succ position => simpa using ih distinct there
  | @giveWay _ olds before after _ new choices refused accepted _ ih =>
      obtain ⟨absent, others⟩ := List.nodup_cons.mp (List.perm_middle.nodup_iff.mp distinct)
      cases position with
      | zero =>
          cases there
          have first : (before ++ new :: after).find?
              (fun fresh => matcher.accepts separator fresh.text old) = some new :=
            List.find?_eq_some_iff_append.mpr
              ⟨accepted, before, after, rfl, fun other member => by
                simpa using refused other member⟩
          simp [first]
      | succ position =>
          rw [List.take_succ_cons, filter_not_taken absent]
          exact ih others there

end Choice

section Records

/-- The records name the choices. -/
theorem recorded_iff {fresh : NewChunk} (member : fresh ∈ newChunks separator new) {old : Nat} :
    (∃ pair ∈ (merge matcher separator existing new).replaced,
        pair.old = old ∧ pair.new = fresh.index) ↔
      (pairing matcher separator existing new).1[old]? = some (some fresh) := by
  have paired := paired_pairing matcher separator existing new
  constructor
  · rintro ⟨pair, recorded, rfl, same⟩
    obtain ⟨_, other, _, taken, position, _⟩ := mem_replaced_iff.mp recorded
    rw [taken, eq_of_index_eq (paired.mem_free (List.mem_of_getElem? taken)) member
      (position.trans same)]
  · intro taken
    have inside : old < (Chunk.split separator existing).length := by
      rw [← paired.length_eq]
      exact (List.getElem?_eq_some_iff.mp taken).1
    have there := List.getElem?_eq_getElem inside
    exact ⟨⟨old, fresh.index, _⟩, mem_replaced_iff.mpr ⟨_, fresh, there, taken, rfl, rfl⟩, rfl, rfl⟩

theorem not_taken_before_iff {fresh : NewChunk} (member : fresh ∈ newChunks separator new)
    {old : Nat} :
    some fresh ∉ (pairing matcher separator existing new).1.take old ↔
      ∀ pair ∈ (merge matcher separator existing new).replaced,
        pair.old < old → pair.new ≠ fresh.index := by
  constructor
  · intro free pair recorded before same
    have taken := (recorded_iff member).mp ⟨pair, recorded, rfl, same⟩
    apply free
    rw [List.mem_iff_getElem?]
    exact ⟨pair.old, by rw [List.getElem?_take_of_lt before, taken]⟩
  · intro free taken
    obtain ⟨earlier, there⟩ := List.mem_iff_getElem?.mp taken
    rw [List.getElem?_take] at there
    split at there
    · next before =>
        obtain ⟨pair, recorded, rfl, same⟩ := (recorded_iff member).mpr there
        exact free pair recorded before same
    · cases there

theorem fitsFree_iff {fresh : NewChunk} (member : fresh ∈ newChunks separator new) {old : Nat}
    {chunk : Text} (there : (Chunk.split separator existing)[old]? = some chunk) :
    FitsFree matcher separator existing new old fresh.index ↔
      some fresh ∉ (pairing matcher separator existing new).1.take old ∧
        matcher.accepts separator fresh.text chunk := by
  have known := mem_newChunks_iff.mp member
  rw [FitsFree, ← not_taken_before_iff member, and_comm, Fits, there, known]
  simp [Matcher.accepts]

/-- A new chunk is chosen if it is the first that fits and is free. -/
theorem chosen_iff_first {fresh : NewChunk} (member : fresh ∈ newChunks separator new) {old : Nat}
    {chunk : Text} (there : (Chunk.split separator existing)[old]? = some chunk) :
    (pairing matcher separator existing new).1[old]? = some (some fresh) ↔
      IsLeast { index | FitsFree matcher separator existing new old index } fresh.index := by
  have found := (paired_pairing matcher separator existing new).choice_eq_find
    (nodup_newChunks separator new) there
  have ordered := (pairwise_newChunks separator new).sublist
    (List.filter_sublist (p := fun fresh =>
      some fresh ∉ (pairing matcher separator existing new).1.take old))
  rw [found, Option.some.injEq, find?_eq_some_iff_first ordered]
  simp only [List.mem_filter, decide_eq_true_eq]
  constructor
  · rintro ⟨⟨_, free⟩, accepted, least⟩
    refine ⟨(fitsFree_iff member there).mpr ⟨free, accepted⟩, fun index fits => ?_⟩
    obtain ⟨_, text, _, known, _⟩ := fits.1
    have other : (⟨text, index⟩ : NewChunk) ∈ newChunks separator new := mem_newChunks_iff.mpr known
    obtain ⟨alsoFree, alsoAccepted⟩ := (fitsFree_iff other there).mp fits
    exact least ⟨text, index⟩ ⟨other, alsoFree⟩ alsoAccepted
  · rintro ⟨fits, least⟩
    obtain ⟨free, accepted⟩ := (fitsFree_iff member there).mp fits
    refine ⟨⟨member, free⟩, accepted, fun other ⟨known, alsoFree⟩ alsoAccepted => ?_⟩
    exact least ((fitsFree_iff known there).mpr ⟨alsoFree, alsoAccepted⟩)

theorem recorded_iff_first (old index : Nat) :
    (∃ pair ∈ (merge matcher separator existing new).replaced, pair.old = old ∧ pair.new = index) ↔
      IsLeast { index | FitsFree matcher separator existing new old index } index := by
  have paired := paired_pairing matcher separator existing new
  constructor
  · rintro ⟨pair, recorded, rfl, rfl⟩
    obtain ⟨chunk, fresh, there, taken, position, _⟩ := mem_replaced_iff.mp recorded
    rw [← position]
    exact (chosen_iff_first (paired.mem_free (List.mem_of_getElem? taken)) there).mp taken
  · intro least
    obtain ⟨chunk, text, there, known, _⟩ := least.1.1
    have member : (⟨text, index⟩ : NewChunk) ∈ newChunks separator new :=
      mem_newChunks_iff.mpr known
    exact (recorded_iff member).mpr ((chosen_iff_first member there).mpr least)

theorem pairwise_replaced :
    (merge matcher separator existing new).replaced.Pairwise fun first second =>
      first.old < second.old := by
  have ordered : ((Chunk.split separator existing).zip
      (pairing matcher separator existing new).1).zipIdx.Pairwise fun first second =>
        first.2 < second.2 := by
    rw [← List.pairwise_map (R := (· < ·)), List.zipIdx_map_snd]
    exact List.pairwise_lt_range' 1
  rw [replaced_merge, replacements]
  refine ordered.filterMap _ fun first second before pair fromFirst other fromSecond => ?_
  obtain ⟨_, _, rfl⟩ := Option.map_eq_some_iff.mp fromFirst
  obtain ⟨_, _, rfl⟩ := Option.map_eq_some_iff.mp fromSecond
  exact before

theorem exists_taken_of_fits {old index : Nat}
    (stays : ∀ pair ∈ (merge matcher separator existing new).replaced, pair.old ≠ old)
    (fits : Fits matcher separator existing new old index) :
    ∃ pair ∈ (merge matcher separator existing new).replaced, pair.old < old ∧
    pair.new = index := by
  classical
  by_contra none
  have free : ∃ index, FitsFree matcher separator existing new old index :=
    ⟨index, fits, fun pair recorded before same => none ⟨pair, recorded, before, same⟩⟩
  obtain ⟨pair, recorded, same, _⟩ := (recorded_iff_first old _).mpr (Nat.isLeast_find free)
  exact stays pair recorded same

end Records

/-- Every merge pairs greedily, for any way to compare chunks. -/
theorem pairs_greedily (matcher : Matcher) (separator existing new : Text) :
    PairsGreedily matcher separator existing new where
  increasing := pairwise_replaced
  distinct := (List.nodup_append.mp nodup_positions).1
  chosen := recorded_iff_first
  maximal old stays index never fits := by
    obtain ⟨pair, recorded, _, same⟩ := exists_taken_of_fits stays fits
    exact never pair recorded same

end FontScaffold.Merge
