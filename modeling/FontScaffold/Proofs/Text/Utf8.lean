import FontScaffold.Proofs.Text.Basic
import FontScaffold.Text.Utf8

set_option autoImplicit false

namespace FontScaffold.Utf8

theorem toNat_ofNat {n : Nat} (small : n < 256) : (UInt8.ofNat n).toNat = n := by
  rw [UInt8.toNat_ofNat', Nat.mod_eq_of_lt small]

section Steps

variable {position : Nat} {pending : Pending} {byte : UInt8} {rest : Bytes}

theorem decodeFrom_ascii (small : byte.toNat < 0x80) :
    decodeFrom position none (byte :: rest) =
      (decodeFrom (position + 1) none rest).map (.char (Char.ofNat byte.toNat) :: ·) := by
  have inside : byte < 0x80 := UInt8.lt_iff_toNat_lt.mpr small
  rw [decodeFrom, if_pos inside]

theorem decodeFrom_start (large : 0x80 ≤ byte.toNat) (starts : Pending.start? byte = some pending) :
    decodeFrom position none (byte :: rest) = decodeFrom position (some pending) rest := by
  have outside : ¬byte < 0x80 := by
    rw [UInt8.lt_iff_toNat_lt]
    exact Nat.not_lt.mpr large
  rw [decodeFrom, if_neg outside, starts]

theorem decodeFrom_more (low : pending.low ≤ byte.toNat) (high : byte.toNat ≤ pending.high)
    (more : pending.missing - 1 ≠ 0) :
    decodeFrom position (some pending) (byte :: rest) =
      decodeFrom position (some (pending.withByte byte)) rest := by
  have accepted : pending.accepts byte := by simp [Pending.accepts, low, high]
  have missing : (pending.withByte byte).missing ≠ 0 := more
  rw [decodeFrom, if_pos accepted, if_neg missing]

theorem decodeFrom_last (low : pending.low ≤ byte.toNat) (high : byte.toNat ≤ pending.high)
    (last : pending.missing - 1 = 0) :
    decodeFrom position (some pending) (byte :: rest) =
      (decodeFrom (position + (pending.bytes.length + 1)) none rest).map
        (.char (Char.ofNat (pending.bits * 64 + (byte.toNat - 0x80))) :: ·) := by
  have accepted : pending.accepts byte := by simp [Pending.accepts, low, high]
  have missing : (pending.withByte byte).missing = 0 := last
  have length : (pending.withByte byte).bytes.length = pending.bytes.length + 1 := by
    simp [Pending.withByte]
  rw [decodeFrom, if_pos accepted, if_pos missing, length]
  rfl

end Steps

/-- The bits of a code point before its last `count` groups of six. -/
def leading (v : Nat) : Nat → Nat
  | 0 => v
  | count + 1 => leading v count / 64

/-- The continuation bytes of a code point that hold its last `count` groups of six bits. -/
def continuation (v : Nat) : Nat → Bytes
  | 0 => []
  | count + 1 => UInt8.ofNat (leading v count % 64 + 0x80) :: continuation v count

section Sequences

variable {v : Nat} {byte : UInt8}

theorem leading_two : leading v 2 = v / 4096 :=
  Nat.div_div_eq_div_mul v 64 64

theorem leading_three : leading v 3 = v / 262144 := by
  rw [leading, leading_two, Nat.div_div_eq_div_mul]

theorem start_two (low : 0x80 ≤ v) (high : v ≤ 0x7ff) (lead : byte.toNat = leading v 1 + 0xc0) :
    Pending.start? byte = some ⟨1, 0x80, 0xbf, leading v 1, [byte]⟩ := by
  simp only [leading] at lead ⊢
  simp only [Pending.start?, lead]
  rw [if_pos (by omega), Nat.add_sub_cancel]

/-- The range of the second byte leaves out overlong forms and surrogates. -/
theorem start_three (low : 0x800 ≤ v) (high : v ≤ 0xffff) (proper : v < 0xd800 ∨ 0xdfff < v)
    (lead : byte.toNat = leading v 2 + 0xe0) :
    ∃ least most, Pending.start? byte = some ⟨2, least, most, leading v 2, [byte]⟩ ∧
      least ≤ leading v 1 % 64 + 0x80 ∧ leading v 1 % 64 + 0x80 ≤ most := by
  rw [leading_two] at lead ⊢
  simp only [Pending.start?, lead, leading]
  rw [if_neg (by omega)]
  by_cases first : v / 4096 = 0
  · rw [if_pos (by omega), first]
    exact ⟨_, _, rfl, by omega, by omega⟩
  · rw [if_neg (by omega)]
    by_cases surrogates : v / 4096 = 0xd
    · rw [if_pos (by omega), surrogates]
      exact ⟨_, _, rfl, by omega, by omega⟩
    · rw [if_neg (by omega), if_pos (by omega), Nat.add_sub_cancel]
      exact ⟨_, _, rfl, by omega, by omega⟩

/-- The range of the second byte leaves out overlong forms and what is no code point. -/
theorem start_four (low : 0x10000 ≤ v) (high : v < 0x110000)
    (lead : byte.toNat = leading v 3 + 0xf0) :
    ∃ least most, Pending.start? byte = some ⟨3, least, most, leading v 3, [byte]⟩ ∧
      least ≤ leading v 2 % 64 + 0x80 ∧ leading v 2 % 64 + 0x80 ≤ most := by
  rw [leading_three] at lead ⊢
  simp only [Pending.start?, lead, leading_two]
  rw [if_neg (by omega), if_neg (by omega), if_neg (by omega), if_neg (by omega)]
  by_cases first : v / 262144 = 0
  · rw [if_pos (by omega), first]
    exact ⟨_, _, rfl, by omega, by omega⟩
  · rw [if_neg (by omega)]
    by_cases last : v / 262144 = 4
    · rw [if_neg (by omega), if_pos (by omega), last]
      exact ⟨_, _, rfl, by omega, by omega⟩
    · rw [if_pos (by omega), Nat.add_sub_cancel]
      exact ⟨_, _, rfl, by omega, by omega⟩

theorem toNat_val_ofNat (valid : v.isValidChar) : (Char.ofNat v).val.toNat = v := by
  rw [Char.ofNat, dif_pos valid]
  rfl

theorem ofNat_eq (same : v = byte.toNat) : UInt8.ofNat v = byte := by
  rw [same, UInt8.ofNat_toNat]

theorem encodeChar_one (byte : UInt8) (small : byte.toNat < 0x80) :
    String.utf8EncodeChar (Char.ofNat byte.toNat) = [byte] := by
  have valid : byte.toNat.isValidChar := Or.inl (by omega)
  rw [String.utf8EncodeChar, toNat_val_ofNat valid]
  have fits : byte.toNat ≤ 0x7f := by omega
  simp only [fits, ↓reduceIte, UInt8.ofNat_toNat]

theorem encodeChar_two (low : 0x80 ≤ v) (high : v ≤ 0x7ff)
    (lead : byte.toNat = leading v 1 + 0xc0) :
    String.utf8EncodeChar (Char.ofNat v) = byte :: continuation v 1 := by
  have valid : v.isValidChar := Or.inl (by omega)
  rw [String.utf8EncodeChar, toNat_val_ofNat valid]
  simp only [continuation, leading] at lead ⊢
  rw [if_neg (by omega), if_pos high, ofNat_eq (by omega : v / 64 % 32 + 192 = byte.toNat)]

theorem encodeChar_three (low : 0x800 ≤ v) (high : v ≤ 0xffff) (proper : v < 0xd800 ∨ 0xdfff < v)
    (lead : byte.toNat = leading v 2 + 0xe0) :
    String.utf8EncodeChar (Char.ofNat v) = byte :: continuation v 2 := by
  have valid : v.isValidChar := proper.imp id (⟨·, by omega⟩)
  rw [String.utf8EncodeChar, toNat_val_ofNat valid]
  rw [leading_two] at lead
  simp only [continuation, leading]
  rw [if_neg (by omega), if_neg (by omega), if_pos high,
    ofNat_eq (by omega : v / 4096 % 16 + 224 = byte.toNat)]

theorem encodeChar_four (low : 0x10000 ≤ v) (high : v < 0x110000)
    (lead : byte.toNat = leading v 3 + 0xf0) :
    String.utf8EncodeChar (Char.ofNat v) = byte :: continuation v 3 := by
  have valid : v.isValidChar := Or.inr ⟨by omega, high⟩
  rw [String.utf8EncodeChar, toNat_val_ofNat valid]
  rw [leading_three] at lead
  simp only [continuation, leading_two]
  rw [if_neg (by omega), if_neg (by omega), if_neg (by omega),
    ofNat_eq (by omega : v / 262144 % 8 + 240 = byte.toNat)]
  rfl

end Sequences

/-- The continuation bytes end the sequence of a code point whose leading bits are there. -/
theorem decodeFrom_continuation (position v count : Nat) {least most : Nat} (bytes rest : Bytes)
    (low : least ≤ leading v count % 64 + 0x80) (high : leading v count % 64 + 0x80 ≤ most) :
    decodeFrom position (some ⟨count + 1, least, most, leading v (count + 1), bytes⟩)
        (continuation v (count + 1) ++ rest) =
      (decodeFrom (position + (bytes.length + (count + 1))) none rest).map
        (.char (Char.ofNat v) :: ·) := by
  have next (n : Nat) : (UInt8.ofNat (n % 64 + 0x80)).toNat = n % 64 + 0x80 :=
    toNat_ofNat (by omega)
  have longer (n : Nat) : n / 64 * 64 + (n % 64 + 0x80 - 0x80) = n := by omega
  induction count generalizing least most bytes with
  | zero =>
      rw [continuation, List.cons_append, decodeFrom_last (by rw [next]; exact low)
        (by rw [next]; exact high) rfl, next]
      simp only [leading, longer]
      rfl
  | succ count ih =>
      rw [continuation, List.cons_append, decodeFrom_more (by rw [next]; exact low)
        (by rw [next]; exact high) (by exact Nat.succ_ne_zero count), Pending.withByte, next]
      have later := ih (bytes ++ [UInt8.ofNat (leading v (count + 1) % 64 + 0x80)])
        (Nat.le_add_left _ _) (by omega : leading v count % 64 + 0x80 ≤ 0xbf)
      rw [List.length_append, List.length_singleton, Nat.add_assoc, Nat.add_comm 1] at later
      simp only [leading, longer] at later ⊢
      exact later

theorem decodeFrom_encodeChar (position : Nat) (c : Char) (rest : Bytes) :
    decodeFrom position none (String.utf8EncodeChar c ++ rest) =
      (decodeFrom (position + (String.utf8EncodeChar c).length) none rest).map (.char c :: ·) := by
  have valid : c.val.toNat < 0xd800 ∨ 0xdfff < c.val.toNat ∧ c.val.toNat < 0x110000 := c.valid
  have back : Char.ofNat c.val.toNat = c := Char.ofNat_toNat c
  generalize c.val.toNat = v at valid back
  subst back
  rcases Nat.lt_or_ge v 0x80 with small | large
  · have byte : (UInt8.ofNat v).toNat = v := toNat_ofNat (by omega)
    have encoded := encodeChar_one (UInt8.ofNat v) (by omega)
    rw [byte] at encoded
    rw [encoded, List.singleton_append, decodeFrom_ascii (by omega), byte]
    rfl
  rcases Nat.lt_or_ge v 0x800 with small | large
  · have lead : (UInt8.ofNat (leading v 1 + 0xc0)).toNat = leading v 1 + 0xc0 :=
      toNat_ofNat (by simp only [leading]; omega)
    rw [encodeChar_two (by omega) (by omega) lead, List.cons_append,
      decodeFrom_start (by omega) (start_two (by omega) (by omega) lead),
      decodeFrom_continuation position v 0 _ _ (Nat.le_add_left _ _) (by omega)]
    rfl
  rcases Nat.lt_or_ge v 0x10000 with small | large
  · have lead : (UInt8.ofNat (leading v 2 + 0xe0)).toNat = leading v 2 + 0xe0 :=
      toNat_ofNat (by rw [leading_two]; omega)
    obtain ⟨least, most, starts, low, high⟩ := start_three (by omega) (by omega) (by omega) lead
    rw [encodeChar_three (by omega) (by omega) (by omega) lead, List.cons_append,
      decodeFrom_start (by omega) starts, decodeFrom_continuation position v 1 _ _ low high]
    rfl
  · have lead : (UInt8.ofNat (leading v 3 + 0xf0)).toNat = leading v 3 + 0xf0 :=
      toNat_ofNat (by rw [leading_three]; omega)
    obtain ⟨least, most, starts, low, high⟩ := start_four (by omega) (by omega) lead
    rw [encodeChar_four (by omega) (by omega) lead, List.cons_append,
      decodeFrom_start (by omega) starts, decodeFrom_continuation position v 2 _ _ low high]
    rfl

section Encoding

variable {escaping : Bool} {text before after : Text} {bytes : Bytes}

/-- What a text is encoded as does not hang on where it stands. -/
theorem encodeFrom_shift {position : Nat} (encoded : encodeFrom escaping position text = .ok bytes)
    (other : Nat) : encodeFrom escaping other text = .ok bytes := by
  induction text generalizing position other bytes with
  | nil => exact encoded
  | cons c text ih =>
      simp only [encodeFrom] at encoded ⊢
      split at encoded
      · cases encoded
      · cases later : encodeFrom escaping (position + 1) text with
        | error fault =>
            rw [later] at encoded
            cases encoded
        | ok rest =>
            rw [later] at encoded
            rw [ih later (other + 1)]
            exact encoded

theorem encode_char_cons (c : Char) (encoded : encode text = .ok bytes) :
    encode (.char c :: text) = .ok (String.utf8EncodeChar c ++ bytes) := by
  rw [encode, encodeFrom, encodeFrom_shift encoded]
  rfl

theorem encode_cons_eq_ok {c : CodePoint} :
    encode (c :: text) = .ok bytes ↔ ∃ char rest, c = .char char ∧ encode text = .ok rest ∧
      bytes = String.utf8EncodeChar char ++ rest := by
  constructor
  · intro encoded
    cases c with
    | lone unit =>
        simp [encode, encodeFrom, encodePoint?] at encoded
    | char char =>
        cases later : encodeFrom false 1 text with
        | error fault =>
            rw [encode, encodeFrom, later] at encoded
            cases encoded
        | ok rest =>
            rw [encode, encodeFrom, later] at encoded
            cases encoded
            exact ⟨char, rest, rfl, encodeFrom_shift later 0, rfl⟩
  · rintro ⟨char, rest, rfl, later, rfl⟩
    exact encode_char_cons char later

theorem encode_append_eq_ok :
    encode (before ++ after) = .ok bytes ↔ ∃ first last, encode before = .ok first ∧
      encode after = .ok last ∧ bytes = first ++ last := by
  induction before generalizing bytes with
  | nil =>
      constructor
      · intro encoded
        exact ⟨[], bytes, rfl, encoded, rfl⟩
      · rintro ⟨_, _, none, encoded, rfl⟩
        cases none
        exact encoded
  | cons c before ih =>
      rw [List.cons_append, encode_cons_eq_ok]
      constructor
      · rintro ⟨char, _, rfl, encoded, rfl⟩
        obtain ⟨first, last, front, behind, rfl⟩ := ih.mp encoded
        exact ⟨_, last, encode_char_cons char front, behind, (List.append_assoc _ _ _).symm⟩
      · rintro ⟨_, last, front, behind, rfl⟩
        obtain ⟨char, first, rfl, rest, rfl⟩ := encode_cons_eq_ok.mp front
        exact ⟨char, _, rfl, ih.mpr ⟨first, last, rest, behind, rfl⟩, List.append_assoc _ _ _⟩

/-- A text can be encoded if all of it is characters. -/
theorem exists_encode_iff : (∃ bytes, encode text = .ok bytes) ↔ Text.WellFormed text := by
  induction text with
  | nil =>
      constructor
      · intro _ c member
        cases member
      · exact fun _ => ⟨[], rfl⟩
  | cons c text ih =>
      rw [Text.WellFormed, List.forall_mem_cons, ← Text.WellFormed, ← ih]
      constructor
      · rintro ⟨_, encoded⟩
        obtain ⟨_, rest, rfl, later, _⟩ := encode_cons_eq_ok.mp encoded
        exact ⟨rfl, rest, later⟩
      · rintro ⟨whole, rest, later⟩
        cases c with
        | lone unit => cases whole
        | char c => exact ⟨_, encode_char_cons c later⟩

/-- Of the surrogates, the name of a file has only those that stand for bytes. -/
theorem escapes_byte_of_encodeName {name : Text} (encoded : encodeName name = .ok bytes)
    {unit : Fin 0x800} (member : .lone unit ∈ name) : 0x480 ≤ unit.val ∧ unit.val < 0x500 := by
  rw [encodeName] at encoded
  generalize 0 = position at encoded
  induction name generalizing position bytes with
  | nil => cases member
  | cons c name ih =>
      rw [encodeFrom] at encoded
      split at encoded
      · cases encoded
      · next first here =>
          rcases List.mem_cons.mp member with rfl | member
          · by_contra outside
            rw [encodePoint?, if_neg (by simpa using outside)] at here
            cases here
          · cases later : encodeFrom true (position + 1) name with
            | error fault =>
                rw [later] at encoded
                cases encoded
            | ok rest => exact ih member _ later

theorem encode_map_char (chars : List Char) :
    encode (chars.map .char) = .ok (encodeChars chars) := by
  induction chars with
  | nil => rfl
  | cons c chars ih => exact encode_char_cons c ih

theorem encode_text (literal : String) : encode literal.text = .ok literal.utf8 :=
  encode_map_char literal.toList

theorem decodeFrom_encode_append (position : Nat) (encoded : encode text = .ok bytes)
    (rest : Bytes) :
    decodeFrom position none (bytes ++ rest) =
      (decodeFrom (position + bytes.length) none rest).map (text ++ ·) := by
  induction text generalizing position bytes with
  | nil =>
      cases encoded
      exact (id_map (f := Except Fault) _).symm
  | cons c text ih =>
      obtain ⟨char, later, rfl, tail, rfl⟩ := encode_cons_eq_ok.mp encoded
      rw [List.append_assoc, decodeFrom_encodeChar, ih _ tail, List.length_append, Nat.add_assoc]
      cases decodeFrom (position + _) none rest <;> rfl

theorem decode_of_encode (encoded : encode text = .ok bytes) : decode bytes = .ok text := by
  have decoded := decodeFrom_encode_append 0 encoded []
  rw [List.append_nil] at decoded
  rw [decode, decoded]
  exact congrArg Except.ok (List.append_nil text)

end Encoding

end FontScaffold.Utf8
