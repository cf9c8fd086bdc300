import FontScaffold.Proofs.Chunk.Match

set_option autoImplicit false

namespace FontScaffold.Chunk

/-- Three tokens without a line break, all of them among four. -/
structure OneShort (few many : Finset Text) : Prop where
  three : few.card = 3
  plain : lineBreak ∉ few
  within : few ⊆ many
  four : many.card = 4

/-- Sets of tokens by which chunks match: equal ones, where a line break needs three words beside
it, or sets of which one lacks just one token of the other. -/
inductive Alike (first second : Finset Text) : Prop where
  | same (equal : first = second) (some : first.Nonempty)
      (enough : lineBreak ∉ first ∨ first.card = 4)
  | shorter (short : OneShort first second)
  | longer (short : OneShort second first)

section Counting

variable {first second : Finset Text}

theorem same_of_shared (most : 7 * first.card < 10 * (first.erase lineBreak).card)
    (few : first.card ≤ 4) : Alike first first := by
  have kept : (first.erase lineBreak).card ≤ first.card := Finset.card_erase_le
  have some : 0 < first.card := by omega
  refine .same rfl (Finset.card_pos.mp some) ?_
  by_cases broken : lineBreak ∈ first
  · rw [Finset.card_erase_of_mem broken] at most
    right
    omega
  · exact Or.inl broken

theorem oneShort_of_shared (three : first.card = 3) (four : second.card = 4)
    (shared : (first ∩ second).card = 3) (plain : lineBreak ∉ first ∩ second) :
    OneShort first second := by
  have all : first ∩ second = first :=
    Finset.eq_of_subset_of_card_le Finset.inter_subset_left (by omega)
  rw [all] at plain
  exact ⟨three, plain, Finset.inter_eq_left.mp all, four⟩

theorem alike_of_shared
    (most : 7 * (first ∪ second).card < 10 * ((first ∩ second).erase lineBreak).card)
    (few : first.card ≤ 4) (alsoFew : second.card ≤ 4) : Alike first second := by
  by_cases equal : first = second
  · subst equal
    rw [Finset.union_self, Finset.inter_self] at most
    exact same_of_shared most few
  have total := Finset.card_union_add_card_inter first second
  have left : (first ∩ second).card ≤ first.card := Finset.card_le_card Finset.inter_subset_left
  have right : (first ∩ second).card ≤ second.card := Finset.card_le_card Finset.inter_subset_right
  have kept : ((first ∩ second).erase lineBreak).card ≤ (first ∩ second).card :=
    Finset.card_erase_le
  have different : first.card ≠ (first ∩ second).card ∨ second.card ≠ (first ∩ second).card := by
    by_contra neither
    rw [not_or, not_not, not_not] at neither
    have fromFirst := Finset.eq_of_subset_of_card_le Finset.inter_subset_left neither.1.le
    have fromSecond := Finset.eq_of_subset_of_card_le Finset.inter_subset_right neither.2.le
    exact equal (fromFirst.symm.trans fromSecond)
  -- Seven tenths of at least four tokens: three are shared, and there is no fifth.
  have three : (first ∩ second).card = 3 := by omega
  have plain : lineBreak ∉ first ∩ second := by
    intro broken
    rw [Finset.card_erase_of_mem broken] at most
    omega
  have sizes : first.card = 3 ∧ second.card = 4 ∨ first.card = 4 ∧ second.card = 3 := by omega
  rcases sizes with ⟨short, full⟩ | ⟨full, short⟩
  · exact .shorter (oneShort_of_shared short full three plain)
  · rw [Finset.inter_comm] at three plain
    exact .longer (oneShort_of_shared short full three plain)

theorem OneShort.shared (short : OneShort first second) :
    7 * (first ∪ second).card < 10 * ((first ∩ second).erase lineBreak).card := by
  rw [Finset.union_eq_right.mpr short.within, Finset.inter_eq_left.mpr short.within,
    Finset.erase_eq_of_notMem short.plain, short.three, short.four]
  decide

theorem Alike.shared (alike : Alike first second) :
    7 * (first ∪ second).card < 10 * ((first ∩ second).erase lineBreak).card := by
  cases alike with
  | same equal some enough =>
      subst equal
      rw [Finset.union_self, Finset.inter_self]
      have positive := Finset.card_pos.mpr some
      by_cases broken : lineBreak ∈ first
      · have four := enough.resolve_left (not_not_intro broken)
        rw [Finset.card_erase_of_mem broken]
        omega
      · rw [Finset.erase_eq_of_notMem broken]
        omega
  | shorter short => exact short.shared
  | longer short =>
      rw [Finset.union_comm, Finset.inter_comm]
      exact short.shared

theorem Alike.subset (alike : Alike first second) (four : second.card = 4) : first ⊆ second := by
  cases alike with
  | same equal _ _ => exact equal.subset
  | shorter short => exact short.within
  | longer short =>
      have three := short.three
      omega

/-- Alike to four tokens without a line break is any choice of at least three of them. -/
theorem alike_iff_of_four (four : second.card = 4) (plain : lineBreak ∉ second) :
    Alike first second ↔ first ⊆ second ∧ 3 ≤ first.card := by
  constructor
  · intro alike
    refine ⟨alike.subset four, ?_⟩
    cases alike with
    | same equal _ _ =>
        rw [equal]
        omega
    | shorter short => exact short.three.ge
    | longer short =>
        have three := short.three
        omega
  · rintro ⟨within, many⟩
    have bound := Finset.card_le_card within
    by_cases all : first.card = 4
    · have equal : first = second := Finset.eq_of_subset_of_card_le within (by omega)
      refine .same equal (Finset.card_pos.mp (by omega)) (Or.inr all)
    · exact .shorter ⟨by omega, fun broken => plain (within broken), within, four⟩

theorem alike_iff_eq_of_four (four : first.card = 4) (alsoFour : second.card = 4) :
    Alike first second ↔ first = second := by
  constructor
  · intro alike
    exact Finset.eq_of_subset_of_card_le (alike.subset alsoFour) (by omega)
  · intro equal
    exact .same equal (Finset.card_pos.mp (by omega)) (Or.inr four)

end Counting

end FontScaffold.Chunk

namespace FontScaffold.Matcher

open Chunk

theorem accepts_iff_alike (separator first second : Text) :
    standard.accepts separator first second ↔
      Alike (tokenSet separator first) (tokenSet separator second) := by
  rw [accepts_standard_iff, sharedTokens]
  exact ⟨fun most => alike_of_shared most (card_tokenSet_le separator first)
    (card_tokenSet_le separator second), Alike.shared⟩

theorem accepts_iff_eq_of_four {separator first second : Text}
    (four : (tokenSet separator first).card = 4) (alsoFour : (tokenSet separator second).card = 4) :
    standard.accepts separator first second ↔
      tokenSet separator first = tokenSet separator second := by
  rw [accepts_iff_alike, alike_iff_eq_of_four four alsoFour]

/-- The match relation exactly: chunks match if their tokens are alike. So it is symmetric, a chunk
matches something only if it matches itself, and where two chunks with different tokens match, one
has three tokens and the other four. -/
theorem match_relation (separator first second : Text) :
    (standard.threshold < similarity separator [first, second] ↔
      Alike (tokenSet separator first) (tokenSet separator second)) ∧
    (standard.accepts separator first second ↔ standard.accepts separator second first) ∧
    (standard.accepts separator first second →
      standard.accepts separator first first ∧ standard.accepts separator second second) ∧
    (standard.accepts separator first second →
      tokenSet separator first ≠ tokenSet separator second →
        (tokenSet separator first).card = 3 ∧ (tokenSet separator second).card = 4 ∨
          (tokenSet separator first).card = 4 ∧ (tokenSet separator second).card = 3) := by
  refine ⟨?_, ?_, ?_, ?_⟩
  · rw [← accepts_iff_alike, accepts, decide_eq_true_eq]
    rfl
  · rw [accepts_comm]
  · intro accepted
    have back := accepted
    rw [accepts_comm] at back
    exact ⟨accepts_self_of_accepts accepted, accepts_self_of_accepts back⟩
  · intro accepted different
    cases (accepts_iff_alike separator first second).mp accepted with
    | same equal _ _ => exact (different equal).elim
    | shorter short => exact Or.inl ⟨short.three, short.four⟩
    | longer short => exact Or.inr ⟨short.four, short.three⟩

end FontScaffold.Matcher
