import FontScaffold.Proofs.Json.Escape

set_option autoImplicit false

namespace FontScaffold.Json

/-- A value that can be printed and read again, as far as its strings go. The names of members do
not matter here. -/
inductive Value.Unpaired : Value → Prop where
  | null : Unpaired .null
  | bool (value : Bool) : Unpaired (.bool value)
  | number (literal : Text) : Unpaired (.number literal)
  | string {text : Text} (unpaired : Json.Unpaired text) : Unpaired (.string text)
  | array {items : List Value} (each : ∀ item ∈ items, Unpaired item) : Unpaired (.array items)
  | object {members : List (Text × Value)} (each : ∀ member ∈ members, Unpaired member.2) :
      Unpaired (.object members)

section Units

theorem isLowUnit_eq_true {unit : Nat} : isLowUnit unit ↔ 0xdc00 ≤ unit ∧ unit < 0xe000 := by
  simp [isLowUnit]

theorem isLowUnit_char (c : Char) : isLowUnit (CodePoint.char c).toNat = false := by
  have valid : c.toNat < 0xd800 ∨ 0xdfff < c.toNat ∧ c.toNat < 0x110000 := c.valid
  refine Bool.eq_false_iff.mpr fun low => ?_
  obtain ⟨above, below⟩ : 0xdc00 ≤ c.toNat ∧ c.toNat < 0xe000 := isLowUnit_eq_true.mp low
  omega

theorem toNat_ofNat_eq_or (n : Nat) :
    (CodePoint.ofNat n).toNat = n ∨
      ¬(0xd800 ≤ n ∧ n < 0xe000) ∧ CodePoint.ofNat n = .char (Char.ofNat n) := by
  rw [CodePoint.ofNat]
  split
  · exact Or.inl (Nat.add_sub_cancel' (by omega))
  · next outside => exact Or.inr ⟨outside, rfl⟩

theorem isHighUnit_ofNat (n : Nat) : isHighUnit (CodePoint.ofNat n).toNat = isHighUnit n := by
  rcases toNat_ofNat_eq_or n with same | ⟨outside, isChar⟩
  · rw [same]
  · rw [isChar, isHighUnit_char, eq_comm, Bool.eq_false_iff]
    intro high
    obtain ⟨above, below⟩ := isHighUnit_eq_true.mp high
    exact outside ⟨above, by omega⟩

theorem isLowUnit_ofNat (n : Nat) : isLowUnit (CodePoint.ofNat n).toNat = isLowUnit n := by
  rcases toNat_ofNat_eq_or n with same | ⟨outside, isChar⟩
  · rw [same]
  · rw [isChar, isLowUnit_char, eq_comm, Bool.eq_false_iff]
    intro low
    obtain ⟨above, below⟩ := isLowUnit_eq_true.mp low
    exact outside ⟨by omega, below⟩

theorem unit_charOfPair {high low : Nat} :
    isHighUnit (charOfPair high low).toNat = false ∧
    isLowUnit (charOfPair high low).toNat = false := by
  rw [charOfPair, isHighUnit_ofNat, isLowUnit_ofNat, Bool.eq_false_iff, Bool.eq_false_iff, ne_eq,
    ne_eq, isHighUnit_eq_true, isLowUnit_eq_true]
  omega

end Units

section Strings

variable {opening text after : Text} {c : CodePoint}

/-- The text begins with the escape of a second half of a pair, and goes on behind it. -/
def BeginsLow (text : Text) : Prop :=
  ∃ second unit, text = .char '\\' :: .char 'u' :: second ∧ second.drop 4 ≠ [] ∧
    unit? second = some unit ∧ isLowUnit unit

/-- What an escape gives: a second half of a pair only for the escape of one, and a first half only
if no second one follows. -/
theorem unit_of_unicodeEscape (done : unicodeEscape text = .ok (c, after)) :
    (isLowUnit c.toNat → BeginsLow (.char '\\' :: .char 'u' :: text)) ∧
      (isHighUnit c.toNat → ¬BeginsLow after) := by
  obtain ⟨unit, known, more, ⟨single, rfl, alone⟩ | ⟨_, low, _, pair, _⟩⟩ :=
    unicodeEscape_eq_ok done
  · rw [single, isLowUnit_ofNat, isHighUnit_ofNat]
    refine ⟨fun low => ⟨text, unit, rfl, more, known, low⟩, ?_⟩
    rintro high ⟨second, low, same, goesOn, knownLow, isLow⟩
    exact alone high second low same goesOn knownLow isLow
  · obtain ⟨notHigh, notLow⟩ := @unit_charOfPair unit low
    rw [pair]
    exact ⟨fun low => absurd low (Bool.eq_false_iff.mp notLow),
      fun high => absurd high (Bool.eq_false_iff.mp notHigh)⟩

theorem wellFormed_of_suffix (wellFormed : Text.WellFormed text) (suffix : after <:+ text) :
    Text.WellFormed after :=
  fun c member => wellFormed c (suffix.subset member)

/-- What a string is read as: no two escapes in it make one character, and if it begins with a
second half of a pair, that was escaped. -/
structure Unescaped (text read rest : Text) : Prop where
  unpaired : Unpaired read
  low : ∀ c, read.head? = some c → isLowUnit c.toNat → BeginsLow text
  rest : Text.WellFormed rest

theorem Unescaped.cons {later read rest : Text} (unescaped : Unescaped later read rest)
    (notLone : c.isLone = false) (text : Text) : Unescaped text (c :: read) rest := by
  cases c with
  | lone unit => cases notLone
  | char c =>
      refine ⟨List.isChain_cons.mpr ⟨fun _ _ both => ?_, unescaped.unpaired⟩, ?_, unescaped.rest⟩
      · rw [isHighUnit_char] at both
        cases both.1
      · intro _ same low
        cases same
        rw [isLowUnit_char] at low
        cases low

theorem isLone_of_plainEscape {letter : CodePoint} (known : plainEscape? letter = some c) :
    c.isLone = false := by
  grind [plainEscape?, CodePoint.isLone]

theorem unescaped_of_stringFrom (wellFormed : Text.WellFormed text) {read : Parsed Text text}
    (done : stringFrom opening text = .ok read) : Unescaped text read.value read.rest := by
  fun_induction stringFrom opening text with
  | case1 => cases done
  | case2 rest =>
      cases done
      exact ⟨.nil, nofun, (List.forall_mem_cons.mp wellFormed).2⟩
  | case3 => cases done
  | case4 => cases done
  | case5 => cases done
  | case6 rest c after escape _ more later ih =>
      cases done
      have there : Text.WellFormed rest := fun c member =>
        wellFormed c (.tail _ (.tail _ member))
      have unescaped := ih (wellFormed_of_suffix there (suffix_of_unicodeEscape escape)) later
      obtain ⟨low, high⟩ := unit_of_unicodeEscape escape
      refine ⟨List.isChain_cons.mpr ⟨fun next first both => ?_, unescaped.unpaired⟩, ?_,
        unescaped.rest⟩
      · exact high both.1 (unescaped.low next first both.2)
      · intro _ same
        cases same
        exact low
  | case7 => cases done
  | case8 => cases done
  | case9 letter rest _ c known more later ih =>
      cases done
      have there : Text.WellFormed rest := fun c member =>
        wellFormed c (.tail _ (.tail _ member))
      exact (ih there later).cons (isLone_of_plainEscape known) _
  | case10 => cases done
  | case11 => cases done
  | case12 c rest _ _ _ _ _ more later ih =>
      cases done
      obtain ⟨here, there⟩ := List.forall_mem_cons.mp wellFormed
      exact (ih there later).cons here _

end Strings

section Values

variable {α : Type} {text after : Text} {good : α → Prop}

/-- What is read, if anything is, is good, and what is left of the text is well-formed. -/
def Gives (good : α → Prop) (result : Except Fault (Parsed α text)) : Prop :=
  ∀ read, result = .ok read → good read.value ∧ Text.WellFormed read.rest

theorem gives_error (fault : Fault) : Gives good (.error fault : Except Fault (Parsed α text)) :=
  nofun

theorem gives_ok {value : α} {shorter : after.length < text.length} (isGood : good value)
    (rest : Text.WellFormed after) : Gives good (.ok ⟨value, after, shorter⟩) := by
  intro read same
  cases same
  exact ⟨isGood, rest⟩

theorem wellFormed_skipSpace (wellFormed : Text.WellFormed text) :
    Text.WellFormed (skipSpace text) :=
  wellFormed_of_suffix wellFormed (List.dropWhile_suffix isSpace)

theorem length_lt_of_skipSpace {c : CodePoint} (same : skipSpace text = c :: after) :
    (skipSpace after).length < text.length := by
  have short := length_skipSpace_le text
  have shortAfter := length_skipSpace_le after
  rw [same, List.length_cons] at short
  omega

theorem wellFormed_behind {c : CodePoint} (wellFormed : Text.WellFormed text)
    (same : skipSpace text = c :: after) : Text.WellFormed after :=
  (List.forall_mem_cons.mp (same ▸ wellFormed_skipSpace wellFormed)).2

theorem unpaired_word {word : Parsed Value text} (known : word? text = some word) :
    Value.Unpaired word.value ∧ ∀ c ∈ word.rest, c ∈ text := by
  unfold word? at known
  split at known <;> cases known
  all_goals exact ⟨by constructor, fun c member => by simp only [List.mem_cons, member, or_true]⟩

theorem gives_atom (wellFormed : Text.WellFormed text) : Gives Value.Unpaired (atom text) := by
  unfold atom
  split
  · next word known =>
    obtain ⟨unpaired, within⟩ := unpaired_word known
    exact fun _ same => Except.ok.inj same ▸
      ⟨unpaired, fun c member => wellFormed c (within c member)⟩
  · dsimp only
    split
    · exact gives_error _
    split
    · exact gives_ok (.number _) (wellFormed_of_suffix wellFormed (List.drop_suffix _ _))
    · exact gives_error _

mutual

theorem gives_value {room : Nat} {text : Text} (wellFormed : Text.WellFormed text) :
    Gives Value.Unpaired (value room text) := by
  unfold value
  split
  · next rest =>
    split
    · exact gives_error _
    · next read done =>
      have unescaped := unescaped_of_stringFrom (List.forall_mem_cons.mp wellFormed).2 done
      exact gives_ok (.string unescaped.unpaired) unescaped.rest
  · next rest =>
    have inside : Text.WellFormed rest := (List.forall_mem_cons.mp wellFormed).2
    have short := length_skipSpace_le rest
    split
    · exact gives_error _
    dsimp only
    split
    · next closes =>
      exact gives_ok (.array (List.forall_mem_nil _)) (wellFormed_behind inside closes)
    split
    · exact gives_error _
    · next read done =>
      obtain ⟨each, rest⟩ := gives_items (wellFormed_skipSpace inside) read done
      exact gives_ok (.array each) rest
  · next rest =>
    have inside : Text.WellFormed rest := (List.forall_mem_cons.mp wellFormed).2
    have short := length_skipSpace_le rest
    split
    · exact gives_error _
    dsimp only
    split
    · next closes =>
      exact gives_ok (.object (List.forall_mem_nil _)) (wellFormed_behind inside closes)
    split
    · exact gives_error _
    · next read done =>
      obtain ⟨each, rest⟩ := gives_members (wellFormed_skipSpace inside) read done
      exact gives_ok (.object each) rest
  · exact gives_atom wellFormed
termination_by 2 * text.length
decreasing_by
  all_goals
    subst_vars
    simp only [List.length_cons]
    omega

theorem gives_items {room : Nat} {text : Text} (wellFormed : Text.WellFormed text) :
    Gives (∀ item ∈ ·, Value.Unpaired item) (items room text) := by
  unfold items
  split
  · exact gives_error _
  next first done =>
  obtain ⟨unpaired, behind⟩ := gives_value wellFormed first done
  have shorter := first.shorter
  dsimp only
  split
  · next closes =>
    exact gives_ok (List.forall_mem_singleton.mpr unpaired) (wellFormed_behind behind closes)
  · next more comma =>
    split
    · exact gives_error _
    · next others later =>
      have short := length_lt_of_skipSpace comma
      obtain ⟨each, rest⟩ :=
        gives_items (wellFormed_skipSpace (wellFormed_behind behind comma)) others later
      exact gives_ok (List.forall_mem_cons.mpr ⟨unpaired, each⟩) rest
  · exact gives_error _
termination_by 2 * text.length + 1
decreasing_by
  all_goals omega

theorem gives_members {room : Nat} {text : Text} (wellFormed : Text.WellFormed text) :
    Gives (∀ member ∈ ·, Value.Unpaired member.2) (members room text) := by
  unfold members
  split
  · next rest =>
    split
    · exact gives_error _
    next name named =>
    have shorterName := name.shorter
    have after := (unescaped_of_stringFrom (List.forall_mem_cons.mp wellFormed).2 named).rest
    dsimp only
    split
    · next colon =>
      split
      · exact gives_error _
      next first done =>
      have shortName := length_lt_of_skipSpace colon
      have shorter := first.shorter
      obtain ⟨unpaired, behind⟩ :=
        gives_value (wellFormed_skipSpace (wellFormed_behind after colon)) first done
      split
      · next closes =>
        exact gives_ok (List.forall_mem_singleton.mpr unpaired) (wellFormed_behind behind closes)
      · next more comma =>
        split
        · exact gives_error _
        · next others later =>
          have short := length_lt_of_skipSpace comma
          obtain ⟨each, rest⟩ :=
            gives_members (wellFormed_skipSpace (wellFormed_behind behind comma)) others later
          exact gives_ok (List.forall_mem_cons.mpr ⟨unpaired, each⟩) rest
      · exact gives_error _
    · exact gives_error _
  · exact gives_error _
termination_by 2 * text.length + 1
decreasing_by
  all_goals
    subst_vars
    simp only [List.length_cons]
    omega

end

theorem unpaired_of_parse (wellFormed : Text.WellFormed text) {read : Value}
    (done : parse text = .ok read) : Value.Unpaired read := by
  unfold parse at done
  split at done
  · cases done
  split at done
  · cases done
  next whole known =>
  split at done
  · cases done
    exact (gives_value (wellFormed_skipSpace wellFormed) whole known).1
  · cases done

end Values

end FontScaffold.Json
