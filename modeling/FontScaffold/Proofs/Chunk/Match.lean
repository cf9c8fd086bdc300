import FontScaffold.Merge
import FontScaffold.Proofs.FirstOccurrences
import Mathlib.Algebra.Order.Field.Rat
import Mathlib.Data.Finset.Card
import Mathlib.Data.Finset.Union
import Mathlib.Tactic.Linarith

set_option autoImplicit false

namespace FontScaffold.Chunk

def tokenSet (separator chunk : Text) : Finset Text :=
  (tokens separator chunk).toFinset

def allTokens (separator : Text) (chunks : List Text) : Finset Text :=
  chunks.toFinset.biUnion (tokenSet separator)

/-- The tokens that every chunk has; a line break is none. -/
def commonTokens (separator : Text) (chunks : List Text) : Finset Text :=
  (allTokens separator chunks).filter fun token =>
    token ≠ lineBreak ∧ ∀ chunk ∈ chunks, token ∈ tokenSet separator chunk

theorem mem_allTokens {separator token : Text} {chunks : List Text} :
    token ∈ allTokens separator chunks ↔ ∃ chunk ∈ chunks, token ∈ tokenSet separator chunk := by
  simp only [allTokens, Finset.mem_biUnion, List.mem_toFinset]

theorem mem_commonTokens_cons {separator token first : Text} {others : List Text} :
    token ∈ commonTokens separator (first :: others) ↔
      token ∈ tokens separator first ∧ token ≠ lineBreak ∧
        ∀ other ∈ others, token ∈ tokens separator other := by
  simp only [commonTokens, Finset.mem_filter, mem_allTokens, tokenSet, List.mem_toFinset,
    List.forall_mem_cons]
  constructor
  · rintro ⟨_, proper, here, there⟩
    exact ⟨here, proper, there⟩
  · rintro ⟨here, proper, there⟩
    exact ⟨⟨first, List.mem_cons_self, here⟩, proper, here, there⟩

/-- The similarity looks at the tokens of the first chunk only, yet treats all chunks alike. -/
theorem similarity_eq_div {separator : Text} {chunks : List Text} (several : 2 ≤ chunks.length) :
    similarity separator chunks =
      ((commonTokens separator chunks).card : Rat) / ((allTokens separator chunks).card : Rat) := by
  obtain ⟨first, chunks, rfl⟩ := List.exists_cons_of_length_pos (by omega : 0 < chunks.length)
  obtain ⟨second, others, rfl⟩ :=
    List.exists_cons_of_length_pos (by simpa using several : 1 ≤ chunks.length)
  have all : ((first :: second :: others).map (tokens separator)).flatten.eraseDups.length =
      (allTokens separator (first :: second :: others)).card := by
    rw [← List.toFinset_card_of_nodup (FirstOccurrences.nodup_eraseDups _)]
    congr 1
    ext token
    simp [mem_allTokens, tokenSet, List.mem_eraseDups]
  have shared : ((tokens separator first).eraseDups.filter fun token => token != lineBreak &&
      ((second :: others).map (tokens separator)).all (·.contains token)).length =
      (commonTokens separator (first :: second :: others)).card := by
    rw [← List.toFinset_card_of_nodup ((FirstOccurrences.nodup_eraseDups _).filter _)]
    congr 1
    ext token
    rw [List.mem_toFinset, List.mem_filter, List.mem_eraseDups, mem_commonTokens_cons]
    simp
  rw [← all, ← shared]
  rfl

/-- The tokens that two chunks share; a line break is none. -/
def sharedTokens (separator first second : Text) : Finset Text :=
  (tokenSet separator first ∩ tokenSet separator second).erase lineBreak

theorem similarity_pair (separator first second : Text) :
    similarity separator [first, second] =
      ((sharedTokens separator first second).card : Rat) /
        ((tokenSet separator first ∪ tokenSet separator second).card : Rat) := by
  have all : allTokens separator [first, second] =
      tokenSet separator first ∪ tokenSet separator second := by
    ext token
    simp [mem_allTokens]
  have common : commonTokens separator [first, second] = sharedTokens separator first second := by
    ext token
    simp only [commonTokens, Finset.mem_filter, mem_allTokens, List.forall_mem_cons, sharedTokens,
      Finset.mem_erase, Finset.mem_inter]
    constructor
    · rintro ⟨_, proper, left, right, _⟩
      exact ⟨proper, left, right⟩
    · rintro ⟨proper, left, right⟩
      exact ⟨⟨first, List.mem_cons_self, left⟩, proper, left, right, by simp⟩
  rw [similarity_eq_div (by simp), all, common]

end FontScaffold.Chunk

namespace FontScaffold.Matcher

open Chunk

/-- A match in whole numbers: more than seven tenths of all tokens are shared. -/
theorem accepts_standard_iff (separator first second : Text) :
    standard.accepts separator first second ↔
      7 * (tokenSet separator first ∪ tokenSet separator second).card <
        10 * (sharedTokens separator first second).card := by
  have value : (standard.score separator first second).value =
      ((sharedTokens separator first second).card : Rat) /
        ((tokenSet separator first ∪ tokenSet separator second).card : Rat) :=
    similarity_pair separator first second
  simp only [accepts, value, decide_eq_true_eq]
  rcases Nat.eq_zero_or_pos (tokenSet separator first ∪ tokenSet separator second).card
    with none | some
  · have bound : (sharedTokens separator first second).card ≤
        (tokenSet separator first ∪ tokenSet separator second).card := by
      apply Finset.card_le_card
      intro token member
      exact Finset.mem_union_left _ (Finset.mem_of_mem_inter_left (Finset.mem_of_mem_erase member))
    rw [none] at bound ⊢
    have empty : (sharedTokens separator first second).card = 0 := by omega
    simp only [empty]
    norm_num [standard]
  · have positive : (0 : Rat) <
        ((tokenSet separator first ∪ tokenSet separator second).card : Rat) := by
      exact_mod_cast some
    rw [lt_div_iff₀ positive]
    simp only [standard]
    constructor
    · intro above
      have scaled : (7 : Rat) *
        ((tokenSet separator first ∪ tokenSet separator second).card : Rat) <
          10 * ((sharedTokens separator first second).card : Rat) := by linarith
      exact_mod_cast scaled
    · intro above
      have scaled : (7 : Rat) *
        ((tokenSet separator first ∪ tokenSet separator second).card : Rat) <
          10 * ((sharedTokens separator first second).card : Rat) := by exact_mod_cast above
      linarith

theorem accepts_congr {separator first second other another : Text}
    (left : tokens separator first = tokens separator other)
    (right : tokens separator second = tokens separator another) :
    standard.accepts separator first second = standard.accepts separator other another := by
  rw [Bool.eq_iff_iff, accepts_standard_iff, accepts_standard_iff]
  simp only [tokenSet, sharedTokens, left, right]

theorem accepts_comm (separator first second : Text) :
    standard.accepts separator first second = standard.accepts separator second first := by
  rw [Bool.eq_iff_iff, accepts_standard_iff, accepts_standard_iff]
  simp only [sharedTokens, Finset.union_comm, Finset.inter_comm]

theorem accepts_self_of_accepts {separator first second : Text}
    (accepted : standard.accepts separator first second) :
    standard.accepts separator first first := by
  rw [accepts_standard_iff] at accepted ⊢
  have all : (tokenSet separator first).card ≤
      (tokenSet separator first ∪ tokenSet separator second).card :=
    Finset.card_le_card Finset.subset_union_left
  have shared : (sharedTokens separator first second).card ≤
      (sharedTokens separator first first).card := by
    apply Finset.card_le_card
    apply Finset.erase_subset_erase
    rw [Finset.inter_self]
    exact Finset.inter_subset_left
  rw [Finset.union_self]
  omega

theorem not_accepts_nil (separator first : Text) : ¬standard.accepts separator first [] := by
  have bare : Chunk.dropSeparator separator [] = [] := by
    rw [Chunk.dropSeparator, List.take_nil, ite_self]
  have none : tokenSet separator [] = ∅ := by
    rw [tokenSet, tokens, tokensUpTo, words, bare]
    rfl
  rw [accepts_standard_iff, sharedTokens, none, Finset.inter_empty, Finset.erase_empty,
    Finset.card_empty]
  omega

end FontScaffold.Matcher

namespace FontScaffold

namespace Chunk

theorem length_tokens_le (separator chunk : Text) : (tokens separator chunk).length ≤ 4 := by
  have first : takeInt wordLimit (words separator chunk) = (words separator chunk).take 4 := rfl
  rw [tokens, tokensUpTo, first]
  calc
    _ ≤ (((words separator chunk).take 4).map (Text.trim isPunctuation)).length :=
      List.length_filter_le _ _
    _ ≤ 4 := by
      rw [List.length_map, List.length_take]
      exact Nat.min_le_left _ _

theorem card_tokenSet_le (separator chunk : Text) : (tokenSet separator chunk).card ≤ 4 :=
  (List.toFinset_card_le _).trans (length_tokens_le separator chunk)

end Chunk

namespace Score

theorem not_isHuge_of_small : ∀ shared : Nat, shared < 5 → ∀ all : Nat, all < 9 →
    isHuge ((shared : Rat) / (all : Rat)) = false := by
  decide +kernel

theorem display_similarity (separator first second : Text) :
    ∃ shown, (Matcher.standard.score separator first second).display = .ok shown := by
  have shared : (Chunk.sharedTokens separator first second).card ≤ 4 := by
    refine le_trans (Finset.card_le_card ?_) (Chunk.card_tokenSet_le separator first)
    exact (Finset.erase_subset _ _).trans Finset.inter_subset_left
  have all : (Chunk.tokenSet separator first ∪ Chunk.tokenSet separator second).card ≤ 8 := by
    have left := Chunk.card_tokenSet_le separator first
    have right := Chunk.card_tokenSet_le separator second
    have both := Finset.card_union_le (Chunk.tokenSet separator first)
      (Chunk.tokenSet separator second)
    omega
  have small : isHuge (Chunk.similarity separator [first, second]) = false := by
    rw [Chunk.similarity_pair]
    exact not_isHuge_of_small _ (by omega) _ (by omega)
  refine ⟨decimal (Chunk.similarity separator [first, second] < 0)
    (Chunk.similarity separator [first, second]), ?_⟩
  simp only [Matcher.standard, display, small, Bool.false_eq_true, ↓reduceIte]

end Score

namespace Report

theorem overflow_ofScores {α : Type} {score : α → Score} {entry : α → Text → LogEntry}
    {items : List α} (each : ∀ item ∈ items, ∃ shown, (score item).display = .ok shown) :
    (ofScores score entry items).overflow = none := by
  induction items with
  | nil => rfl
  | cons item items ih =>
      obtain ⟨shown, here⟩ := each item List.mem_cons_self
      simp only [ofScores, here]
      exact ih fun other member => each other (List.mem_cons_of_mem item member)

theorem overflow_followedBy {report : Report} (more : Log) (fine : report.overflow = none) :
    (report.followedBy more).overflow = none := by
  rw [followedBy, fine]

end Report

theorem Merge.overflow_report (separator existing new : Text) :
    (merge Matcher.standard separator existing new).report.overflow = none := by
  refine Report.overflow_followedBy _ (Report.overflow_ofScores ?_)
  intro replacement member
  simp only [merge, replacements, List.mem_filterMap, Option.map_eq_some_iff] at member
  obtain ⟨slot, _, chunk, _, rfl⟩ := member
  exact Score.display_similarity separator chunk.text slot.1.1

end FontScaffold
