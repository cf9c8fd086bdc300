import FontScaffold.Proofs.Chunk.Match

set_option autoImplicit false

namespace FontScaffold.Chunk

/-- The similarity of several chunks told by their sets of tokens. -/
structure MeasuresSets (separator : Text) (chunks : List Text) : Prop where
  ratio : similarity separator chunks =
    if allTokens separator chunks = ∅ then 0
    else ((commonTokens separator chunks).card : Rat) / ((allTokens separator chunks).card : Rat)
  nonneg : 0 ≤ similarity separator chunks
  le_one : similarity separator chunks ≤ 1
  reordered : ∀ others : List Text, others.Perm chunks →
    similarity separator others = similarity separator chunks
  repeated : ∀ chunk ∈ chunks, ∀ others : List Text, others.Perm (chunk :: chunks) →
    similarity separator others = similarity separator chunks
  extended : ∀ chunk, ∀ others : List Text, others.Perm (chunk :: chunks) →
    similarity separator others ≤ similarity separator chunks
  eq_one_iff : similarity separator chunks = 1 ↔
    ∃ set : Finset Text, (∀ chunk ∈ chunks, tokenSet separator chunk = set) ∧
      set.Nonempty ∧ lineBreak ∉ set

variable {separator : Text} {chunks others : List Text}

theorem commonTokens_subset : commonTokens separator chunks ⊆ allTokens separator chunks :=
  Finset.filter_subset _ _

theorem mem_commonTokens {token : Text} (some : chunks ≠ []) :
    token ∈ commonTokens separator chunks ↔
      token ≠ lineBreak ∧ ∀ chunk ∈ chunks, token ∈ tokenSet separator chunk := by
  rw [commonTokens, Finset.mem_filter, and_iff_right_iff_imp]
  rintro ⟨_, everywhere⟩
  have first := List.head_mem some
  exact mem_allTokens.mpr ⟨_, first, everywhere _ first⟩

theorem similarity_congr (several : 2 ≤ chunks.length) (alsoSeveral : 2 ≤ others.length)
    (same : ∀ chunk, chunk ∈ others ↔ chunk ∈ chunks) :
    similarity separator others = similarity separator chunks := by
  have all : allTokens separator others = allTokens separator chunks := by
    ext token
    simp only [mem_allTokens, same]
  have common : commonTokens separator others = commonTokens separator chunks := by
    simp only [commonTokens, all, same]
  rw [similarity_eq_div several, similarity_eq_div alsoSeveral, all, common]

/-- A further chunk can bring in tokens, and what it lacks is common no longer. -/
theorem similarity_cons_le (several : 2 ≤ chunks.length) (chunk : Text) :
    similarity separator (chunk :: chunks) ≤ similarity separator chunks := by
  have some : chunks ≠ [] := List.ne_nil_of_length_pos (by omega)
  have more : allTokens separator chunks ⊆ allTokens separator (chunk :: chunks) := by
    intro token member
    obtain ⟨other, there, has⟩ := mem_allTokens.mp member
    exact mem_allTokens.mpr ⟨other, List.mem_cons_of_mem chunk there, has⟩
  have fewer : commonTokens separator (chunk :: chunks) ⊆ commonTokens separator chunks := by
    intro token member
    rw [mem_commonTokens (List.cons_ne_nil _ _)] at member
    exact (mem_commonTokens some).mpr
      ⟨member.1, fun other there => member.2 other (List.mem_cons_of_mem chunk there)⟩
  have longer : 2 ≤ (chunk :: chunks).length := Nat.le_succ_of_le several
  rw [similarity_eq_div several, similarity_eq_div longer]
  rcases (allTokens separator chunks).eq_empty_or_nonempty with none | any
  · have nothing : commonTokens separator (chunk :: chunks) = ∅ := by
      rw [← Finset.subset_empty, ← none]
      exact fewer.trans commonTokens_subset
    rw [nothing, Finset.card_empty, Nat.cast_zero, zero_div]
    exact div_nonneg (Nat.cast_nonneg _) (Nat.cast_nonneg _)
  · exact div_le_div₀ (Nat.cast_nonneg _) (Nat.cast_le.mpr (Finset.card_le_card fewer))
      (Nat.cast_pos.mpr any.card_pos) (Nat.cast_le.mpr (Finset.card_le_card more))

theorem similarity_eq_one_iff (several : 2 ≤ chunks.length) :
    similarity separator chunks = 1 ↔
      (allTokens separator chunks).Nonempty ∧
        commonTokens separator chunks = allTokens separator chunks := by
  rw [similarity_eq_div several]
  constructor
  · intro one
    have counted : (allTokens separator chunks).card ≠ 0 := by
      intro none
      rw [none, Nat.cast_zero, div_zero] at one
      exact zero_ne_one one
    rw [div_eq_one_iff_eq (Nat.cast_ne_zero.mpr counted), Nat.cast_inj] at one
    exact ⟨Finset.card_ne_zero.mp counted,
      Finset.eq_of_subset_of_card_le commonTokens_subset one.ge⟩
  · rintro ⟨any, equal⟩
    rw [equal]
    exact div_self (Nat.cast_ne_zero.mpr any.card_pos.ne')

theorem allTokens_of_equal {set : Finset Text} (some : chunks ≠ [])
    (equal : ∀ chunk ∈ chunks, tokenSet separator chunk = set) :
    allTokens separator chunks = set := by
  ext token
  rw [mem_allTokens]
  constructor
  · rintro ⟨chunk, member, has⟩
    rwa [equal chunk member] at has
  · intro has
    have first := List.head_mem some
    exact ⟨_, first, by rwa [equal _ first]⟩

/-- All tokens are common if the chunks have the same ones and no line break. -/
theorem commonTokens_eq_allTokens_iff (some : chunks ≠ []) :
    commonTokens separator chunks = allTokens separator chunks ↔
      ∃ set : Finset Text, (∀ chunk ∈ chunks, tokenSet separator chunk = set) ∧
        lineBreak ∉ set := by
  constructor
  · intro all
    refine ⟨allTokens separator chunks, fun chunk member => ?_, fun broken => ?_⟩
    · apply Finset.Subset.antisymm
      · exact fun token has => mem_allTokens.mpr ⟨chunk, member, has⟩
      · intro token has
        rw [← all, mem_commonTokens some] at has
        exact has.2 chunk member
    · rw [← all, mem_commonTokens some] at broken
      exact broken.1 rfl
  · rintro ⟨set, equal, unbroken⟩
    apply Finset.Subset.antisymm commonTokens_subset
    intro token has
    rw [allTokens_of_equal some equal] at has
    refine (mem_commonTokens some).mpr ⟨?_, fun chunk member => by rwa [equal chunk member]⟩
    rintro rfl
    exact unbroken has

/-- The similarity of two or more chunks is a measure of their sets of tokens. -/
theorem similarity_measures_sets (several : 2 ≤ chunks.length) : MeasuresSets separator chunks where
  ratio := by
    rw [similarity_eq_div several]
    split
    · next none => rw [none, Finset.card_empty, Nat.cast_zero, div_zero]
    · rfl
  nonneg := by
    rw [similarity_eq_div several]
    exact div_nonneg (Nat.cast_nonneg _) (Nat.cast_nonneg _)
  le_one := by
    rw [similarity_eq_div several]
    exact div_le_one_of_le₀ (Nat.cast_le.mpr (Finset.card_le_card commonTokens_subset))
      (Nat.cast_nonneg _)
  reordered others perm :=
    similarity_congr several (perm.length_eq ▸ several) fun _ => perm.mem_iff
  repeated chunk member others perm := by
    refine similarity_congr several ?_ fun other => ?_
    · rw [perm.length_eq]
      exact Nat.le_succ_of_le several
    · rw [perm.mem_iff, List.mem_cons, or_iff_right_of_imp]
      rintro rfl
      exact member
  extended chunk others perm := by
    have longer : 2 ≤ (chunk :: chunks).length := Nat.le_succ_of_le several
    rw [similarity_congr longer (perm.length_eq ▸ longer) fun _ => perm.mem_iff]
    exact similarity_cons_le several chunk
  eq_one_iff := by
    have some : chunks ≠ [] := List.ne_nil_of_length_pos (by omega)
    rw [similarity_eq_one_iff several, commonTokens_eq_allTokens_iff some]
    constructor
    · rintro ⟨any, set, equal, unbroken⟩
      exact ⟨set, equal, allTokens_of_equal some equal ▸ any, unbroken⟩
    · rintro ⟨set, equal, any, unbroken⟩
      exact ⟨(allTokens_of_equal some equal).symm ▸ any, set, equal, unbroken⟩

def declarations : List Text :=
  ["export const a".text, "const export ,c;\n\n".text, "export const b\n".text]

theorem declarations_measured :
    2 ≤ declarations.length ∧ similarity [.char '\n', .char '\n'] declarations = 1 / 3 ∧
      similarity [.char '\n', .char '\n'] ("let const".text :: declarations) ≤ 1 / 3 ∧
      MeasuresSets [.char '\n', .char '\n'] declarations := by
  have several : 2 ≤ declarations.length := by decide
  have third : similarity [.char '\n', .char '\n'] declarations = 1 / 3 := by decide +kernel
  have measured := @similarity_measures_sets [.char '\n', .char '\n'] declarations several
  refine ⟨several, third, ?_, measured⟩
  rw [← third]
  exact measured.extended _ _ (.refl _)

end FontScaffold.Chunk
