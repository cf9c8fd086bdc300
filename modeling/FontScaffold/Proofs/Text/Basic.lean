import FontScaffold.Text.Basic
import Mathlib.Data.List.TakeWhile

set_option autoImplicit false

namespace FontScaffold.Text

/-- No surrogate stands in the text. -/
def WellFormed (text : Text) : Prop :=
  ∀ c ∈ text, c.isLone = false

instance (text : Text) : Decidable (WellFormed text) :=
  inferInstanceAs (Decidable (∀ c ∈ text, c.isLone = false))

theorem wellFormed_text (literal : String) : WellFormed literal.text :=
  List.forall_mem_map.mpr fun _ _ => rfl

theorem replaceChar_append (old : CodePoint) (new first second : Text) :
    replaceChar old new (first ++ second) =
      replaceChar old new first ++ replaceChar old new second :=
  List.flatMap_append

theorem replaceChar_cons_of_ne {old c : CodePoint} (other : c ≠ old) (new rest : Text) :
    replaceChar old new (c :: rest) = c :: replaceChar old new rest := by
  rw [replaceChar, List.flatMap_cons, if_neg other, List.singleton_append, replaceChar]

theorem replaceChar_of_not_mem {old : CodePoint} {text : Text} (absent : old ∉ text) (new : Text) :
    replaceChar old new text = text := by
  induction text with
  | nil => rfl
  | cons c text ih =>
      rw [List.mem_cons, not_or] at absent
      rw [replaceChar_cons_of_ne (Ne.symm absent.1), ih absent.2]

theorem replaceChar_eq_map (old new : CodePoint) (text : Text) :
    replaceChar old [new] text = text.map fun c => if c = old then new else c := by
  rw [replaceChar, List.map_eq_flatMap]
  congr 1
  funext c
  split <;> rfl

theorem trimEnd_of_not_mem {c : CodePoint} {text : Text} (plain : c ∉ text) :
    trimEnd (· == c) text = text := by
  have same : text.reverse.dropWhile (· == c) = text.reverse := by
    rw [List.dropWhile_eq_self_iff]
    intro some here
    apply plain
    rw [← beq_iff_eq.mp here]
    exact List.mem_reverse.mp (List.getElem_mem _)
  rw [trimEnd, same, List.reverse_reverse]

theorem trimEnd_concat_self (c : CodePoint) (front : Text) :
    trimEnd (· == c) (front ++ [c]) = trimEnd (· == c) front := by
  simp [trimEnd]

theorem dropWhile_append_cons {drops : CodePoint → Bool} {c : CodePoint} (kept : drops c = false)
    (front rest : Text) :
    (front ++ c :: rest).dropWhile drops = front.dropWhile drops ++ c :: rest := by
  rw [List.dropWhile_append]
  split
  · next all => simp [List.isEmpty_iff.mp all, kept]
  · rfl

theorem trimEnd_append_cons {drops : CodePoint → Bool} {c : CodePoint} (kept : drops c = false)
    (front rest : Text) :
    trimEnd drops (front ++ c :: rest) = front ++ c :: trimEnd drops rest := by
  have turned : (front ++ c :: rest).reverse = rest.reverse ++ c :: front.reverse := by simp
  rw [trimEnd, turned, dropWhile_append_cons kept]
  simp [trimEnd]

theorem trimEnd_concat {drops : CodePoint → Bool} (front : Text) {last : CodePoint}
    (kept : drops last = false) : trimEnd drops (front ++ [last]) = front ++ [last] :=
  trimEnd_append_cons kept front []

theorem dropWhile_reverse_append_cons {c : CodePoint} {rest : Text} (absent : c ∉ rest)
    (front : Text) :
    (front ++ c :: rest).reverse.dropWhile (· != c) = c :: front.reverse := by
  have others : ∀ other ∈ rest.reverse, (other != c) = true := by
    intro other member
    rw [bne_iff_ne]
    rintro rfl
    exact absent (List.mem_reverse.mp member)
  have turned : (front ++ c :: rest).reverse = rest.reverse ++ c :: front.reverse := by simp
  rw [turned, List.dropWhile_append_of_pos others, List.dropWhile_cons_of_neg (by simp)]

theorem trim_append_cons {drops : CodePoint → Bool} {first last : CodePoint}
    (keptFirst : drops first = false)
    (keptLast : drops last = false) (front middle back : Text) :
    trim drops (front ++ first :: (middle ++ last :: back)) =
      front.dropWhile drops ++ first :: (middle ++ last :: trimEnd drops back) := by
  rw [trim, dropWhile_append_cons keptFirst, ← List.cons_append, ← List.append_assoc,
    trimEnd_append_cons keptLast, List.append_assoc, List.cons_append]

theorem isSome_breakOn (pattern before after : Text) :
    (breakOn pattern (before ++ pattern ++ after)).isSome := by
  induction before with
  | nil =>
      cases whole : pattern ++ after with
      | nil =>
          obtain ⟨rfl, rfl⟩ := List.append_eq_nil_iff.mp whole
          rfl
      | cons c rest =>
          have starts : pattern.isPrefixOf (c :: rest) := by
            rw [← whole, List.isPrefixOf_iff_prefix]
            exact List.prefix_append pattern after
          simp only [List.nil_append, whole, breakOn, starts, ↓reduceIte, Option.isSome_some]
  | cons c before ih =>
      simp only [List.cons_append, breakOn]
      split
      · rfl
      · simpa only [Option.isSome_map] using ih

theorem length_le_of_breakOn {pattern text before after first rest : Text}
    (found : breakOn pattern text = some (before, after))
    (occurs : text = first ++ pattern ++ rest) : before.length ≤ first.length := by
  induction text generalizing before first with
  | nil =>
      simp only [breakOn] at found
      split at found
      · cases found
        exact Nat.zero_le _
      · cases found
  | cons c text ih =>
      simp only [breakOn] at found
      split at found
      · cases found
        exact Nat.zero_le _
      · next absent =>
          cases later : breakOn pattern text with
          | none => simp [later] at found
          | some parts =>
              simp only [later, Option.map_some, Option.some.injEq, Prod.mk.injEq] at found
              obtain ⟨rfl, rfl⟩ := found
              cases first with
              | nil =>
                  have starts : pattern <+: c :: text := by
                    rw [occurs, List.nil_append]
                    exact List.prefix_append pattern rest
                  exact (absent (List.isPrefixOf_iff_prefix.mpr starts)).elim
              | cons head first =>
                  simp only [List.cons_append, List.cons.injEq] at occurs
                  simpa using ih later occurs.2

theorem breakOn_eq_some {pattern text before after : Text}
    (occurs : text = before ++ pattern ++ after)
    (leftmost : ∀ first rest, text = first ++ pattern ++ rest → before.length ≤ first.length) :
    breakOn pattern text = some (before, after) := by
  have found := isSome_breakOn pattern before after
  rw [← occurs, Option.isSome_iff_exists] at found
  obtain ⟨⟨first, rest⟩, found⟩ := found
  have here := eq_append_of_breakOn found
  have same : before.length = first.length :=
    Nat.le_antisymm (leftmost first rest here) (length_le_of_breakOn found occurs)
  rw [here] at occurs
  simp only [List.append_assoc] at occurs
  obtain ⟨heads, tails⟩ := List.append_inj occurs same.symm
  rw [found, heads, List.append_cancel_left tails]

theorem breakOn_eq_none_iff {pattern text : Text} :
    breakOn pattern text = none ↔ ¬pattern <:+: text := by
  constructor
  · rintro absent ⟨before, after, occurs⟩
    have found := isSome_breakOn pattern before after
    rw [occurs, absent] at found
    cases found
  · intro absent
    cases found : breakOn pattern text with
    | none => rfl
    | some parts =>
        exact (absent ⟨parts.1, parts.2, (eq_append_of_breakOn found).symm⟩).elim

theorem occursIn_iff {pattern text : Text} : occursIn pattern text ↔ pattern <:+: text := by
  constructor
  · intro found
    obtain ⟨parts, here⟩ := Option.isSome_iff_exists.mp found
    exact ⟨parts.1, parts.2, (eq_append_of_breakOn here).symm⟩
  · rintro ⟨before, after, rfl⟩
    exact isSome_breakOn pattern before after

theorem breakOn_append {pattern text before after : Text} (more : Text)
    (found : breakOn pattern text = some (before, after)) :
    breakOn pattern (text ++ more) = some (before, after ++ more) := by
  have here := eq_append_of_breakOn found
  apply breakOn_eq_some
  · simp [here]
  · intro first rest occurs
    -- An occurrence that ends within `text` is one of `text`; any other begins further right.
    by_cases inside : (first ++ pattern).length ≤ text.length
    · obtain ⟨tail, same⟩ := List.prefix_of_prefix_length_le ⟨rest, occurs.symm⟩
        (List.prefix_append text more) inside
      exact length_le_of_breakOn found same.symm
    · have total := congrArg List.length here
      simp only [List.length_append] at total inside
      omega

theorem breakOn_drop_after {pattern text before after : Text}
    (found : breakOn pattern text = some (before, after)) :
    breakOn pattern (before ++ pattern) = some (before, []) := by
  apply breakOn_eq_some (List.append_nil _).symm
  intro first rest occurs
  have further : text = first ++ pattern ++ (rest ++ after) := by
    rw [eq_append_of_breakOn found, occurs, List.append_assoc]
  exact length_le_of_breakOn found further

end FontScaffold.Text
