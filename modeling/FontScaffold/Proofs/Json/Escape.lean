import FontScaffold.Json.Parser
import FontScaffold.Proofs.Text.Utf8
import Mathlib.Data.List.Chain

set_option autoImplicit false

namespace FontScaffold.Json

theorem hexValue_digitChar {n : Nat} (small : n < 16) :
    hexValue? (.char (Nat.digitChar n)) = some n := by
  have each : ∀ digit : Fin 16, hexValue? (.char (Nat.digitChar digit)) = some digit.val := by
    decide
  exact each ⟨n, small⟩

/-- Four digits hold a unit. -/
theorem hex_four {n : Nat} (small : n < 0x10000) :
    Text.hex 4 n = [.char (Nat.digitChar (n / 4096)), .char (Nat.digitChar (n / 256 % 16)),
      .char (Nat.digitChar (n / 16 % 16)), .char (Nat.digitChar (n % 16))] := by
  have base : 1 < 16 := by decide
  unfold Text.hex
  by_cases one : n < 16
  · have none : n / 4096 = 0 ∧ n / 256 % 16 = 0 ∧ n / 16 % 16 = 0 ∧ n % 16 = n := by omega
    rw [Nat.toDigits_of_lt_base one, none.1, none.2.1, none.2.2.1, none.2.2.2]
    rfl
  rw [Nat.toDigits_of_base_le base (Nat.not_lt.mp one)]
  by_cases two : n / 16 < 16
  · have none : n / 4096 = 0 ∧ n / 256 % 16 = 0 ∧ n / 16 % 16 = n / 16 := by omega
    rw [Nat.toDigits_of_lt_base two, none.1, none.2.1, none.2.2]
    rfl
  rw [Nat.toDigits_of_base_le base (Nat.not_lt.mp two), Nat.div_div_eq_div_mul]
  by_cases three : n / (16 * 16) < 16
  · have none : n / 4096 = 0 ∧ n / 256 % 16 = n / (16 * 16) := by omega
    rw [Nat.toDigits_of_lt_base three, none.1, none.2]
    rfl
  rw [Nat.toDigits_of_base_le base (Nat.not_lt.mp three), Nat.div_div_eq_div_mul,
    Nat.toDigits_of_lt_base (by omega)]
  rfl

theorem unit_hex {n : Nat} (small : n < 0x10000) (rest : Text) :
    unit? (Text.hex 4 n ++ rest) = some n ∧ (Text.hex 4 n ++ rest).drop 4 = rest := by
  rw [hex_four small]
  refine ⟨?_, rfl⟩
  simp only [List.cons_append, List.nil_append, unit?]
  rw [hexValue_digitChar (by omega), hexValue_digitChar (by omega), hexValue_digitChar (by omega),
    hexValue_digitChar (by omega)]
  have value : ((n / 4096 * 16 + n / 256 % 16) * 16 + n / 16 % 16) * 16 + n % 16 = n := by omega
  exact congrArg some value

/-- No text that the reader takes for one character is printed as two code points: no first half of
a pair stands before a second one. -/
def Unpaired (text : Text) : Prop :=
  text.IsChain fun c next => ¬(isHighUnit c.toNat ∧ isLowUnit next.toNat)

instance (text : Text) : Decidable (Unpaired text) :=
  inferInstanceAs (Decidable (text.IsChain _))

theorem unpaired_of_noHigh {text : Text} (noHigh : ∀ c ∈ text, isHighUnit c.toNat = false) :
    Unpaired text := by
  induction text with
  | nil => exact .nil
  | cons c text ih =>
      obtain ⟨here, there⟩ := List.forall_mem_cons.mp noHigh
      refine List.isChain_cons.mpr ⟨fun next _ both => ?_, ih there⟩
      rw [here] at both
      cases both.1

theorem isHighUnit_eq_true {unit : Nat} : isHighUnit unit ↔ 0xd800 ≤ unit ∧ unit < 0xdc00 := by
  simp [isHighUnit]

theorem isHighUnit_char (c : Char) : isHighUnit (CodePoint.char c).toNat = false := by
  have valid : c.toNat < 0xd800 ∨ 0xdfff < c.toNat ∧ c.toNat < 0x110000 := c.valid
  refine Bool.eq_false_iff.mpr fun high => ?_
  obtain ⟨above, below⟩ : 0xd800 ≤ c.toNat ∧ c.toNat < 0xdc00 := isHighUnit_eq_true.mp high
  omega

theorem noHigh_of_wellFormed {text : Text} (wellFormed : Text.WellFormed text) :
    ∀ c ∈ text, isHighUnit c.toNat = false := by
  intro c member
  cases c with
  | lone unit => cases wellFormed _ member
  | char c => exact isHighUnit_char c

theorem noHigh_of_encodeName {name : Text} {bytes : Bytes}
    (encoded : Utf8.encodeName name = .ok bytes) : ∀ c ∈ name, isHighUnit c.toNat = false := by
  intro c member
  cases c with
  | lone unit =>
      obtain ⟨above, _⟩ := Utf8.escapes_byte_of_encodeName encoded member
      refine Bool.eq_false_iff.mpr fun high => ?_
      obtain ⟨_, below⟩ : 0xd800 ≤ 0xd800 + unit.val ∧ 0xd800 + unit.val < 0xdc00 :=
        isHighUnit_eq_true.mp high
      omega
  | char c => exact isHighUnit_char c

theorem unpaired_of_wellFormed {text : Text} (wellFormed : Text.WellFormed text) : Unpaired text :=
  unpaired_of_noHigh (noHigh_of_wellFormed wellFormed)

section Unicode

variable {c : CodePoint} {rest : Text}

/-- What follows a code point does not make it one character with the escape of another. -/
def EndsPair (c : CodePoint) (rest : Text) : Prop :=
  isHighUnit c.toNat → ∀ second, rest = .char '\\' :: .char 'u' :: second →
    ∃ unit, unit? second = some unit ∧ isLowUnit unit = false

theorem endsPair_unitEscape {unit : Nat} (basic : unit < 0x10000)
    (notLow : isLowUnit unit = false) :
    EndsPair c (unitEscape unit ++ rest) := by
  intro _ second same
  obtain rfl : Text.hex 4 unit ++ rest = second := (List.cons.inj (List.cons.inj same).2).2
  exact ⟨unit, (unit_hex basic rest).1, notLow⟩

theorem endsPair_letter {letter : CodePoint} (noUnit : letter ≠ .char 'u') :
    EndsPair c (.char '\\' :: letter :: rest) := by
  intro _ second same
  exact (noUnit (List.cons.inj (List.cons.inj same).2).1).elim

/-- The escape of a code point begins no second half of a pair, unless it is one. -/
theorem endsPair_escapedChar {next : CodePoint} (notLow : isLowUnit next.toNat = false) :
    EndsPair c (escapedChar next ++ rest) := by
  simp only [escapedChar]
  split
  · exact endsPair_letter (by decide)
  split
  · exact endsPair_letter (by decide)
  split
  · exact endsPair_letter (by decide)
  split
  · exact endsPair_letter (by decide)
  split
  · exact endsPair_letter (by decide)
  split
  · exact endsPair_letter (by decide)
  split
  · exact endsPair_letter (by decide)
  split
  · next noBackslash _ _ _ _ _ _ =>
      intro _ second same
      exact (noBackslash (List.cons.inj same).1).elim
  split
  · next basic => exact endsPair_unitEscape basic notLow
  · next beyond =>
      have inside := next.toNat_lt
      rw [List.append_assoc]
      refine endsPair_unitEscape (by omega) ?_
      simp only [isLowUnit, Bool.and_eq_false_iff, decide_eq_false_iff_not]
      omega

theorem unicodeEscape_single (basic : c.toNat < 0x10000) (more : rest ≠ [])
    (alone : EndsPair c rest) : unicodeEscape (Text.hex 4 c.toNat ++ rest) = .ok (c, rest) := by
  obtain ⟨read, left⟩ := unit_hex basic rest
  have notLast : rest.isEmpty = false := List.isEmpty_eq_false_iff.mpr more
  simp only [unicodeEscape, left, notLast, read, CodePoint.ofNat_toNat, Bool.false_eq_true,
    ↓reduceIte]
  split
  · next second isHigh =>
      obtain ⟨unit, other, notLow⟩ := alone isHigh second rfl
      split
      · rfl
      · rw [other]
        simp only [notLow, Bool.false_eq_true, ↓reduceIte]
  · rfl

theorem unicodeEscape_units {high low : Nat} (isHigh : isHighUnit high) (isLow : isLowUnit low)
    (more : rest ≠ []) :
    unicodeEscape (Text.hex 4 high ++ (unitEscape low ++ rest)) =
      .ok (charOfPair high low, rest) := by
  have highBounds := isHigh
  have lowBounds := isLow
  simp only [isHighUnit, isLowUnit, Bool.and_eq_true, decide_eq_true_eq] at highBounds lowBounds
  obtain ⟨readHigh, leftHigh⟩ := @unit_hex high (by omega) (unitEscape low ++ rest)
  obtain ⟨readLow, leftLow⟩ := @unit_hex low (by omega) rest
  have notLast : rest.isEmpty = false := List.isEmpty_eq_false_iff.mpr more
  simp only [unicodeEscape, leftHigh, readHigh, isHigh]
  simp only [unitEscape, List.cons_append, List.isEmpty_cons, leftLow, notLast, readLow, isLow,
    Bool.false_eq_true, ↓reduceIte]

theorem unicodeEscape_pair (beyond : 0x10000 ≤ c.toNat) (more : rest ≠ []) :
    unicodeEscape (Text.hex 4 (0xd800 + (c.toNat - 0x10000) / 0x400) ++
        (unitEscape (0xdc00 + (c.toNat - 0x10000) % 0x400) ++ rest)) = .ok (c, rest) := by
  have valid := c.toNat_lt
  have isHigh : isHighUnit (0xd800 + (c.toNat - 0x10000) / 0x400) = true := by
    simp only [isHighUnit, Bool.and_eq_true, decide_eq_true_eq]
    omega
  have isLow : isLowUnit (0xdc00 + (c.toNat - 0x10000) % 0x400) = true := by
    simp only [isLowUnit, Bool.and_eq_true, decide_eq_true_eq]
    omega
  have value : 0x10000 + (0xd800 + (c.toNat - 0x10000) / 0x400 - 0xd800) * 0x400 +
      (0xdc00 + (c.toNat - 0x10000) % 0x400 - 0xdc00) = c.toNat := by omega
  rw [unicodeEscape_units isHigh isLow more, charOfPair, value, CodePoint.ofNat_toNat]

end Unicode

/-- From a point inside a string on, `read` is what is left of it, and `rest` follows it. -/
def ReadsString (opening text read rest : Text) : Prop :=
  ∃ shorter, stringFrom opening text = .ok ⟨read, rest, shorter⟩

namespace ReadsString

variable {opening text read rest : Text} {c : CodePoint}

theorem close (opening rest : Text) : ReadsString opening (.char '"' :: rest) [] rest :=
  ⟨_, by rw [stringFrom.eq_2]⟩

theorem plain (noQuote : c ≠ .char '"') (noBackslash : c ≠ .char '\\') (shown : 0x20 ≤ c.toNat)
    (more : ReadsString opening text read rest) :
    ReadsString opening (c :: text) (c :: read) rest := by
  obtain ⟨shorter, done⟩ := more
  refine ⟨by simp only [List.length_cons]; omega, ?_⟩
  rw [stringFrom.eq_6, if_neg (Nat.not_lt.mpr shown), done]
  all_goals simp_all

theorem letter {escaped : CodePoint} (noUnit : escaped ≠ .char 'u')
    (means : plainEscape? escaped = some c)
    (more : ReadsString opening text read rest) :
    ReadsString opening (.char '\\' :: escaped :: text) (c :: read) rest := by
  obtain ⟨shorter, done⟩ := more
  refine ⟨by simp only [List.length_cons]; omega, ?_⟩
  rw [stringFrom.eq_5]
  · simp only [means, done]
  · exact noUnit

theorem unicode {after : Text} (means : unicodeEscape text = .ok (c, after))
    (more : ReadsString opening after read rest) :
    ReadsString opening (.char '\\' :: .char 'u' :: text) (c :: read) rest := by
  obtain ⟨shorter, done⟩ := more
  have short := length_le_of_unicodeEscape means
  refine ⟨by simp only [List.length_cons]; omega, ?_⟩
  rw [stringFrom.eq_4]
  split
  · next failed =>
      rw [means] at failed
      cases failed
  · next d left read =>
      rw [means] at read
      cases read
      simp only [done]

theorem ne_nil (reads : ReadsString opening text read rest) : text ≠ [] := by
  rintro rfl
  obtain ⟨shorter, _⟩ := reads
  exact Nat.not_lt_zero _ shorter

/-- A code point is read back in whichever way it is printed. -/
theorem escaped (c : CodePoint) (alone : EndsPair c text)
    (more : ReadsString opening text read rest) :
    ReadsString opening (escapedChar c ++ text) (c :: read) rest := by
  simp only [escapedChar]
  split
  · next same =>
      subst same
      exact more.letter (by decide) rfl
  split
  · next same =>
      subst same
      exact more.letter (by decide) rfl
  split
  · next same =>
      subst same
      exact more.letter (by decide) rfl
  split
  · next same =>
      subst same
      exact more.letter (by decide) rfl
  split
  · next same =>
      subst same
      exact more.letter (by decide) rfl
  split
  · next formFeed =>
      obtain rfl : c = .char '\x0c' := CodePoint.toNat_inj.mp formFeed
      exact more.letter (by decide) rfl
  split
  · next backspace =>
      obtain rfl : c = .char '\x08' := CodePoint.toNat_inj.mp backspace
      exact more.letter (by decide) rfl
  split
  · next noQuote noBackslash _ _ _ _ _ shown => exact more.plain noQuote noBackslash shown.1
  split
  · next basic =>
      rw [unitEscape, List.cons_append, List.cons_append]
      exact more.unicode (unicodeEscape_single basic more.ne_nil alone)
  · next beyond =>
      rw [List.append_assoc, unitEscape, List.cons_append, List.cons_append]
      exact more.unicode (unicodeEscape_pair (Nat.not_lt.mp beyond) more.ne_nil)

/-- What a string prints between its quotes. -/
theorem of_flatMap (opening : Text) {text : Text} (unpaired : Unpaired text) (rest : Text) :
    ReadsString opening (text.flatMap escapedChar ++ .char '"' :: rest) text rest := by
  induction text with
  | nil => exact close opening rest
  | cons c text ih =>
      rw [List.flatMap_cons, List.append_assoc]
      refine (ih unpaired.tail).escaped c ?_
      cases text with
      | nil =>
          intro _ second same
          cases same
      | cons next text =>
          rw [List.flatMap_cons, List.append_assoc]
          intro isHigh
          refine endsPair_escapedChar (Bool.eq_false_iff.mpr ?_) isHigh
          exact fun isLow => (List.isChain_cons_cons.mp unpaired).1 ⟨isHigh, isLow⟩

end ReadsString

end FontScaffold.Json
