import Mathlib.Data.List.Basic

set_option autoImplicit false

namespace FontScaffold.FirstOccurrences

variable {α β : Type} [BEq α] [LawfulBEq α] [BEq β] [LawfulBEq β]

theorem filter_eraseDups (keeps : α → Bool) (items : List α) :
    items.eraseDups.filter keeps = (items.filter keeps).eraseDups := by
  induction size : items.length using Nat.strongRecOn generalizing items with
  | ind n ih =>
      cases items with
      | nil => rfl
      | cons a rest =>
          have shorter := List.length_filter_le (fun b => !b == a) rest
          simp only [List.length_cons] at size
          have tail := ih _ (by omega) (rest.filter fun b => !b == a) rfl
          rw [List.eraseDups_cons]
          by_cases kept : keeps a
          · rw [List.filter_cons_of_pos kept, List.filter_cons_of_pos kept, List.eraseDups_cons,
              tail, List.filter_filter, List.filter_filter]
            congr 3
            funext b
            exact Bool.and_comm _ _
          · rw [List.filter_cons_of_neg kept, List.filter_cons_of_neg kept, tail,
              List.filter_filter]
            congr 1
            apply List.filter_congr
            intro b _
            by_cases same : b = a
            · simp [same, kept]
            · simp [same]

theorem nodup_eraseDups (items : List α) : items.eraseDups.Nodup := by
  induction size : items.length using Nat.strongRecOn generalizing items with
  | ind n ih =>
      cases items with
      | nil => exact List.nodup_nil
      | cons a rest =>
          have shorter := List.length_filter_le (fun b => !b == a) rest
          simp only [List.length_cons] at size
          rw [List.eraseDups_cons, List.nodup_cons]
          refine ⟨?_, ih _ (by omega) _ rfl⟩
          rw [List.mem_eraseDups, List.mem_filter]
          simp

omit [LawfulBEq α] in
theorem eraseDups_sublist (items : List α) : items.eraseDups.Sublist items := by
  induction size : items.length using Nat.strongRecOn generalizing items with
  | ind n ih =>
      cases items with
      | nil => exact List.Sublist.refl []
      | cons a rest =>
          have shorter : (rest.filter fun b => !b == a).length < n := by
            have short := List.length_filter_le (fun b => !b == a) rest
            simp only [List.length_cons] at size
            omega
          rw [List.eraseDups_cons]
          exact ((ih _ shorter _ rfl).trans List.filter_sublist).cons_cons a

theorem eraseDups_of_nodup {items : List α} (distinct : items.Nodup) :
    items.eraseDups = items := by
  induction items with
  | nil => rfl
  | cons a rest ih =>
      obtain ⟨fresh, distinct⟩ := List.nodup_cons.mp distinct
      have others : (rest.filter fun b => !b == a) = rest := by
        rw [List.filter_eq_self]
        intro b member
        have different : b ≠ a := fun same => fresh (same ▸ member)
        simpa using different
      rw [List.eraseDups_cons, others, ih distinct]

/-- Of a function's values the first occurrences come from first occurrences. -/
theorem eraseDups_map_eraseDups (f : α → β) (items : List α) :
    (items.eraseDups.map f).eraseDups = (items.map f).eraseDups := by
  induction size : items.length using Nat.strongRecOn generalizing items with
  | ind n ih =>
      cases items with
      | nil => rfl
      | cons a rest =>
          have shorter := List.length_filter_le (fun b => !f b == f a) rest
          simp only [List.length_cons] at size
          have later : (rest.filter fun b => !b == a).filter (fun b => !f b == f a) =
              rest.filter fun b => !f b == f a := by
            rw [List.filter_filter]
            apply List.filter_congr
            intro b _
            by_cases same : b = a
            · simp [same]
            · simp [same]
          have moved : ∀ other : List α, (other.map f).filter (fun y => !y == f a) =
              (other.filter fun b => !f b == f a).map f := fun other => List.filter_map
          rw [List.eraseDups_cons, List.map_cons, List.eraseDups_cons, List.map_cons,
            List.eraseDups_cons, moved, moved, filter_eraseDups, later,
            ih _ (by omega) (rest.filter fun b => !f b == f a) rfl]

theorem idxOf_filter_lt_iff {keeps : α → Bool} {a b : α} (keepsLeft : keeps a)
    (keepsRight : keeps b) (items : List α) :
    (items.filter keeps).idxOf a < (items.filter keeps).idxOf b ↔
      items.idxOf a < items.idxOf b := by
  induction items with
  | nil => simp
  | cons c rest ih =>
      by_cases kept : keeps c
      · rw [List.filter_cons_of_pos kept]
        simp only [List.idxOf_cons]
        cases c == a <;> cases c == b <;> simp [ih]
      · have left : (c == a) = false := by
          rw [beq_eq_false_iff_ne]
          intro same
          subst same
          exact kept keepsLeft
        have right : (c == b) = false := by
          rw [beq_eq_false_iff_ne]
          intro same
          subst same
          exact kept keepsRight
        rw [List.filter_cons_of_neg kept, ih]
        simp [List.idxOf_cons, left, right]

theorem idxOf_eq_of_first {items : List α} {index : Nat} {a : α} (there : items[index]? = some a)
    (first : ∀ earlier < index, items[earlier]? ≠ some a) : items.idxOf a = index := by
  rcases Nat.lt_trichotomy (items.idxOf a) index with before | same | after
  · exact (first _ before (List.getElem?_idxOf (List.mem_of_getElem? there))).elim
  · exact same
  · obtain ⟨inside, here⟩ := List.getElem?_eq_some_iff.mp there
    have other := List.not_of_lt_findIdx after
    simp [here] at other

/-- First occurrences stand in the order of the list. -/
theorem idxOf_eraseDups_lt_iff (a b : α) (items : List α) :
    items.eraseDups.idxOf a < items.eraseDups.idxOf b ↔ items.idxOf a < items.idxOf b := by
  induction size : items.length using Nat.strongRecOn generalizing items with
  | ind n ih =>
      cases items with
      | nil => exact Iff.rfl
      | cons c rest =>
          have shorter := List.length_filter_le (fun b => !b == c) rest
          simp only [List.length_cons] at size
          simp only [List.eraseDups_cons, List.idxOf_cons]
          by_cases left : c = a
          · subst left
            cases c == b <;> simp
          · by_cases right : c = b
            · simp [right]
            · have notLeft : (c == a) = false := beq_eq_false_iff_ne.mpr left
              have notRight : (c == b) = false := beq_eq_false_iff_ne.mpr right
              let keeps : α → Bool := fun b => !b == c
              have keepsLeft : keeps a := by simpa [keeps] using fun same => left same.symm
              have keepsRight : keeps b := by simpa [keeps] using fun same => right same.symm
              have tail := ih _ (by omega) (rest.filter fun b => !b == c) rfl
              rw [idxOf_filter_lt_iff keepsLeft keepsRight] at tail
              simpa [notLeft, notRight] using tail

theorem eraseDups_append_middle {before middle after : List α} (distinct : middle.Nodup)
    (notBefore : ∀ a ∈ middle, a ∉ before) (notAfter : ∀ a ∈ middle, a ∉ after) :
    (before ++ middle ++ after).eraseDups =
      before.eraseDups ++ middle ++ (after.removeAll before).eraseDups := by
  have kept : middle.removeAll before = middle := by
    rw [List.removeAll, List.filter_eq_self]
    intro a member
    simpa using notBefore a member
  have apart : after.removeAll (before ++ middle) = after.removeAll before := by
    simp only [List.removeAll]
    apply List.filter_congr
    intro a member
    have other : a ∉ middle := fun inside => notAfter a inside member
    simp [other]
  rw [List.eraseDups_append, List.eraseDups_append, kept, eraseDups_of_nodup distinct, apart]

theorem eraseDups_insert {items middle : List α} (position : Nat) (distinct : middle.Nodup)
    (others : ∀ a ∈ middle, a ∉ items) :
    (items.take position ++ middle ++ items.drop position).eraseDups =
      (items.take position).eraseDups ++ middle ++
        ((items.drop position).removeAll (items.take position)).eraseDups :=
  eraseDups_append_middle distinct
    (fun a member before => others a member (List.mem_of_mem_take before))
    (fun a member after => others a member (List.mem_of_mem_drop after))

theorem eraseDups_append_of_nodup {before after : List α} (first : before.Nodup)
    (second : after.Nodup) :
    (before ++ after).eraseDups = before ++ after.filter fun a => !before.elem a := by
  rw [List.eraseDups_append, eraseDups_of_nodup first, List.removeAll,
    eraseDups_of_nodup (second.filter _)]

theorem eraseDups_concat {before : List α} {a : α} (fresh : a ∉ before) :
    (before ++ [a]).eraseDups = before.eraseDups ++ [a] := by
  have notBefore : ∀ b ∈ [a], b ∉ before := by
    intro b member
    rwa [List.mem_singleton.mp member]
  have notAfter : ∀ b ∈ [a], b ∉ ([] : List α) := fun b _ => List.not_mem_nil
  simpa [List.removeAll] using
    eraseDups_append_middle (List.pairwise_singleton _ a) notBefore notAfter

end FontScaffold.FirstOccurrences
