import FontScaffold.Json.Value

set_option autoImplicit false

namespace FontScaffold.Json

inductive Problem where
  | byteOrderMark
  | expectingValue
  | expectingName
  | expectingColon
  | expectingComma
  | unterminated
  | controlCharacter
  | badEscape
  | badUnicodeEscape
  | extraData
  deriving Repr, DecidableEq

/-- A problem and the text from its place on. -/
structure Failure where
  problem : Problem
  rest : Text
  deriving Repr, DecidableEq

/-- A text that the grammar allows and the reader refuses: a whole number with too many digits, or
an array or object that lies too deep inside others. -/
inductive Excess where
  | digits (count : Nat)
  | arrays
  | objects
  deriving Repr, DecidableEq

/-- Why a text was not read. -/
inductive Fault where
  | malformed (failure : Failure)
  | excess (excess : Excess)
  deriving Repr, DecidableEq

def digitLimit : Nat := 4300

def nestingLimit : Nat := 989

/-- What was read at the start of `text`, and the rest, which is shorter. -/
structure Parsed (α : Type) (text : Text) where
  value : α
  rest : Text
  shorter : rest.length < text.length

def isSpace (c : CodePoint) : Bool :=
  c == ' ' || c == '\t' || c == '\n' || c == '\r'

def skipSpace (text : Text) : Text :=
  text.dropWhile isSpace

theorem length_skipSpace_le (text : Text) : (skipSpace text).length ≤ text.length :=
  (List.dropWhile_suffix isSpace).length_le

def hexValue? : CodePoint → Option Nat
  | .char c =>
      if '0' ≤ c ∧ c ≤ '9' then some (c.toNat - '0'.toNat)
      else if 'a' ≤ c ∧ c ≤ 'f' then some (c.toNat - 'a'.toNat + 10)
      else if 'A' ≤ c ∧ c ≤ 'F' then some (c.toNat - 'A'.toNat + 10)
      else none
  | .lone _ => none

/-- The number that four hexadecimal digits give. -/
def unit? : Text → Option Nat
  | a :: b :: c :: d :: _ => do
      let a ← hexValue? a
      let b ← hexValue? b
      let c ← hexValue? c
      let d ← hexValue? d
      return ((a * 16 + b) * 16 + c) * 16 + d
  | _ => none

def isHighUnit (unit : Nat) : Bool :=
  0xd800 ≤ unit && unit < 0xdc00

def isLowUnit (unit : Nat) : Bool :=
  0xdc00 ≤ unit && unit < 0xe000

def charOfPair (high low : Nat) : CodePoint :=
  CodePoint.ofNat (0x10000 + (high - 0xd800) * 0x400 + (low - 0xdc00))

/-- The escape that `text` holds after its `u`: the digits must have something after them. A first
half of a pair takes the second one with it if that follows and is not at the end of the text. -/
def unicodeEscape (text : Text) : Except Failure (CodePoint × Text) :=
  let bad := Failure.mk .badUnicodeEscape ('u' :: text)
  if (text.drop 4).isEmpty then .error bad
  else
    match unit? text with
    | none => .error bad
    | some unit =>
        let rest := text.drop 4
        match isHighUnit unit, rest with
        | true, '\\' :: 'u' :: second =>
            if (second.drop 4).isEmpty then .ok (CodePoint.ofNat unit, rest)
            else
              match unit? second with
              | none => .error ⟨.badUnicodeEscape, 'u' :: second⟩
              | some low =>
                  if isLowUnit low then .ok (charOfPair unit low, second.drop 4)
                  else .ok (CodePoint.ofNat unit, rest)
        | _, _ => .ok (CodePoint.ofNat unit, rest)

/-- The escape of a unit stands for itself, unless the unit is a first half of a pair and the escape
of a second half follows, with something after it. -/
theorem unicodeEscape_eq_ok {text after : Text} {c : CodePoint}
    (read : unicodeEscape text = .ok (c, after)) :
    ∃ unit, unit? text = some unit ∧ text.drop 4 ≠ [] ∧
      (c = CodePoint.ofNat unit ∧ after = text.drop 4 ∧
          (isHighUnit unit → ∀ second low, after = .char '\\' :: .char 'u' :: second →
            second.drop 4 ≠ [] → unit? second = some low → ¬isLowUnit low) ∨
        ∃ second low, text.drop 4 = .char '\\' :: .char 'u' :: second ∧
          c = charOfPair unit low ∧ after = second.drop 4) := by
  simp only [unicodeEscape] at read
  split at read
  · cases read
  next more =>
  split at read
  · cases read
  next unit known =>
  refine ⟨unit, known, fun none => more (List.isEmpty_iff.mpr none), ?_⟩
  split at read
  · next second isHigh same =>
    have only : ∀ other, text.drop 4 = .char '\\' :: .char 'u' :: other → second = other :=
      fun other again => (List.cons.inj (List.cons.inj (same.symm.trans again)).2).2
    split at read
    · next ends =>
      cases read
      refine Or.inl ⟨rfl, rfl, fun _ other _ again goesOn => ?_⟩
      obtain rfl := only other again
      exact (goesOn (List.isEmpty_iff.mp ends)).elim
    split at read
    · cases read
    next low knownLow =>
    split at read
    · obtain ⟨rfl, rfl⟩ := Prod.mk.inj (Except.ok.inj read)
      exact Or.inr ⟨second, low, same, rfl, rfl⟩
    · next noPair =>
      cases read
      refine Or.inl ⟨rfl, rfl, fun _ other _ again _ knownAgain => ?_⟩
      obtain rfl := only other again
      rw [knownLow] at knownAgain
      cases knownAgain
      exact noPair
  · next other =>
    cases read
    exact Or.inl ⟨rfl, rfl, fun high second _ again => (other second high again).elim⟩

theorem suffix_of_unicodeEscape {text after : Text} {c : CodePoint}
    (read : unicodeEscape text = .ok (c, after)) : after <:+ text := by
  obtain ⟨_, _, _, ⟨_, rfl, _⟩ | ⟨second, _, same, _, rfl⟩⟩ := unicodeEscape_eq_ok read
  · exact List.drop_suffix 4 text
  · have inner : second <:+ text.drop 4 :=
      same ▸ (List.suffix_cons _ _).trans (List.suffix_cons _ _)
    exact (List.drop_suffix 4 second).trans (inner.trans (List.drop_suffix 4 text))

theorem length_le_of_unicodeEscape {text rest : Text} {c : CodePoint}
    (read : unicodeEscape text = .ok (c, rest)) : rest.length ≤ text.length :=
  (suffix_of_unicodeEscape read).length_le

/-- The characters that a backslash and one letter stand for. -/
def plainEscape? (c : CodePoint) : Option CodePoint :=
  if c = '"' ∨ c = '\\' ∨ c = '/' then some c
  else if c = 'b' then some (.char '\x08')
  else if c = 'f' then some (.char '\x0c')
  else if c = 'n' then some (.char '\n')
  else if c = 'r' then some (.char '\r')
  else if c = 't' then some (.char '\t')
  else none

/-- The string whose opening quote begins `opening`, from a point inside it on. -/
def stringFrom (opening : Text) (text : Text) : Except Failure (Parsed Text text) :=
  match text with
  | [] => .error ⟨.unterminated, opening⟩
  | '"' :: rest => .ok ⟨[], rest, by simp⟩
  | ['\\'] => .error ⟨.unterminated, opening⟩
  | '\\' :: 'u' :: rest =>
      match read : unicodeEscape rest with
      | .error failure => .error failure
      | .ok (c, after) =>
          have short := length_le_of_unicodeEscape read
          match stringFrom opening after with
          | .error failure => .error failure
          | .ok more => .ok ⟨c :: more.value, more.rest, by
              have := more.shorter; simp only [List.length_cons]; omega⟩
  | '\\' :: c :: rest =>
      match plainEscape? c with
      | none => .error ⟨.badEscape, '\\' :: c :: rest⟩
      | some c =>
          match stringFrom opening rest with
          | .error failure => .error failure
          | .ok more => .ok ⟨c :: more.value, more.rest, by
              have := more.shorter; simp only [List.length_cons]; omega⟩
  | c :: rest =>
      if c.toNat < 0x20 then .error ⟨.controlCharacter, c :: rest⟩
      else
        match stringFrom opening rest with
        | .error failure => .error failure
        | .ok more => .ok ⟨c :: more.value, more.rest, by
            have := more.shorter; simp only [List.length_cons]; omega⟩
termination_by text.length

/-- The whole part of a number: a zero alone, or digits that begin with another one. -/
def wholePart (text : Text) : Text :=
  match text with
  | '0' :: _ => ['0']
  | _ => text.takeWhile CodePoint.isDigit

/-- The point and the digits after it, if there are some. -/
def fractionPart (text : Text) : Text :=
  match text with
  | '.' :: rest =>
      let part := rest.takeWhile CodePoint.isDigit
      if part.isEmpty then [] else '.' :: part
  | _ => []

def exponentSign (text : Text) : Text :=
  match text with
  | '+' :: _ => ['+']
  | '-' :: _ => ['-']
  | _ => []

/-- The letter, the sign if any, and the digits of an exponent, if there are some. -/
def exponentPart (text : Text) : Text :=
  match text with
  | e :: rest =>
      let sign := exponentSign rest
      let part := (rest.drop sign.length).takeWhile CodePoint.isDigit
      if (e = 'e' ∨ e = 'E') ∧ part ≠ [] then e :: sign ++ part else []
  | [] => []

/-- The longest number at the start of the text, empty if there is none. -/
def numberLiteral (text : Text) : Text :=
  let sign : Text := if text.head? = some (.char '-') then ['-'] else []
  let unsigned := text.drop sign.length
  let whole := wholePart unsigned
  if whole.isEmpty then []
  else
    let fraction := fractionPart (unsigned.drop whole.length)
    let exponent := exponentPart (unsigned.drop (whole.length + fraction.length))
    sign ++ whole ++ fraction ++ exponent

def word? : (text : Text) → Option (Parsed Value text)
  | 'n' :: 'u' :: 'l' :: 'l' :: rest => some ⟨.null, rest, by simp; omega⟩
  | 't' :: 'r' :: 'u' :: 'e' :: rest => some ⟨.bool true, rest, by simp; omega⟩
  | 'f' :: 'a' :: 'l' :: 's' :: 'e' :: rest => some ⟨.bool false, rest, by simp; omega⟩
  | 'N' :: 'a' :: 'N' :: rest => some ⟨.number "NaN".text, rest, by simp; omega⟩
  | 'I' :: 'n' :: 'f' :: 'i' :: 'n' :: 'i' :: 't' :: 'y' :: rest =>
      some ⟨.number "Infinity".text, rest, by simp; omega⟩
  | '-' :: 'I' :: 'n' :: 'f' :: 'i' :: 'n' :: 'i' :: 't' :: 'y' :: rest =>
      some ⟨.number "-Infinity".text, rest, by simp; omega⟩
  | _ => none

/-- The digits of a whole number, none if the literal has a point or an exponent. -/
def wholeDigits (literal : Text) : Text :=
  if literal.all fun c => c.isDigit || c == '-' then literal.filter CodePoint.isDigit else []

def atom (text : Text) : Except Fault (Parsed Value text) :=
  match word? text with
  | some word => .ok word
  | none =>
      let literal := numberLiteral text
      let count := (wholeDigits literal).length
      if digitLimit < count then .error (.excess (.digits count))
      else if found : 0 < literal.length ∧ 0 < text.length then
        .ok ⟨.number literal, text.drop literal.length, by rw [List.length_drop]; omega⟩
      else .error (.malformed ⟨.expectingValue, text⟩)

mutual

/-- The value at the start of the text; `room` arrays and objects may lie inside each other. -/
def value (room : Nat) (text : Text) : Except Fault (Parsed Value text) :=
  match text with
  | '"' :: rest =>
      match stringFrom ('"' :: rest) rest with
      | .error failure => .error (.malformed failure)
      | .ok read => .ok ⟨.string read.value, read.rest, by
          have := read.shorter; simp only [List.length_cons]; omega⟩
  | '[' :: rest =>
      if room = 0 then .error (.excess .arrays)
      else
        have short := length_skipSpace_le rest
        match same : skipSpace rest with
        | ']' :: after => .ok ⟨.array [], after, by
            simp only [same, List.length_cons] at short ⊢; omega⟩
        | inner =>
            match items (room - 1) inner with
            | .error fault => .error fault
            | .ok read => .ok ⟨.array read.value, read.rest, by
                have := read.shorter; simp only [same, List.length_cons] at short ⊢; omega⟩
  | '\x7b' :: rest =>
      if room = 0 then .error (.excess .objects)
      else
        have short := length_skipSpace_le rest
        match same : skipSpace rest with
        | '\x7d' :: after => .ok ⟨.object [], after, by
            simp only [same, List.length_cons] at short ⊢; omega⟩
        | inner =>
            match members (room - 1) inner with
            | .error fault => .error fault
            | .ok read => .ok ⟨.object read.value, read.rest, by
                have := read.shorter; simp only [same, List.length_cons] at short ⊢; omega⟩
  | other => atom other
termination_by 2 * text.length
decreasing_by
  all_goals
    simp only [same, List.length_cons] at *
    omega

/-- The items of an array that has some, up to its closing bracket. -/
def items (room : Nat) (text : Text) : Except Fault (Parsed (List Value) text) :=
  match value room text with
  | .error fault => .error fault
  | .ok first =>
      have shorter := first.shorter
      have short := length_skipSpace_le first.rest
      match same : skipSpace first.rest with
      | ']' :: after => .ok ⟨[first.value], after, by
          simp only [same, List.length_cons] at short; omega⟩
      | ',' :: more =>
          have shortMore := length_skipSpace_le more
          match items room (skipSpace more) with
          | .error fault => .error fault
          | .ok others => .ok ⟨first.value :: others.value, others.rest, by
              have := others.shorter; simp only [same, List.length_cons] at short; omega⟩
      | other => .error (.malformed ⟨.expectingComma, other⟩)
termination_by 2 * text.length + 1
decreasing_by
  · omega
  · simp only [same, List.length_cons] at short
    omega

/-- The members of an object that has some, up to its closing brace. -/
def members (room : Nat) (text : Text) : Except Fault (Parsed (List (Text × Value)) text) :=
  match text with
  | '"' :: rest =>
      match stringFrom ('"' :: rest) rest with
      | .error failure => .error (.malformed failure)
      | .ok name =>
          have shorterName := name.shorter
          have shortName := length_skipSpace_le name.rest
          match sameName : skipSpace name.rest with
          | ':' :: next =>
              have shortNext := length_skipSpace_le next
              match value room (skipSpace next) with
              | .error fault => .error fault
              | .ok first =>
                  have shorter := first.shorter
                  have short := length_skipSpace_le first.rest
                  match same : skipSpace first.rest with
                  | '\x7d' :: after => .ok ⟨[(name.value, first.value)], after, by
                      simp only [same, sameName, List.length_cons] at *; omega⟩
                  | ',' :: more =>
                      have shortMore := length_skipSpace_le more
                      match members room (skipSpace more) with
                      | .error fault => .error fault
                      | .ok others =>
                          .ok ⟨(name.value, first.value) :: others.value, others.rest, by
                            have := others.shorter
                            simp only [same, sameName, List.length_cons] at *; omega⟩
                  | other => .error (.malformed ⟨.expectingComma, other⟩)
          | other => .error (.malformed ⟨.expectingColon, other⟩)
  | other => .error (.malformed ⟨.expectingName, other⟩)
termination_by 2 * text.length + 1
decreasing_by
  all_goals
    simp only [*, List.length_cons] at *
    omega

end

/-- The one value of a text, with nothing but white space around it. -/
def parse (text : Text) : Except Fault Value :=
  if text.head? = some (.char '\ufeff') then .error (.malformed ⟨.byteOrderMark, text⟩)
  else
    match value nestingLimit (skipSpace text) with
    | .error fault => .error fault
    | .ok read =>
        match skipSpace read.rest with
        | [] => .ok read.value
        | rest => .error (.malformed ⟨.extraData, rest⟩)

def Problem.message : Problem → Text
  | .byteOrderMark => "Unexpected UTF-8 BOM (decode using utf-8-sig)".text
  | .expectingValue => "Expecting value".text
  | .expectingName => "Expecting property name enclosed in double quotes".text
  | .expectingColon => "Expecting ':' delimiter".text
  | .expectingComma => "Expecting ',' delimiter".text
  | .unterminated => "Unterminated string starting at".text
  | .controlCharacter => "Invalid control character at".text
  | .badEscape => "Invalid \\escape".text
  | .badUnicodeEscape => "Invalid \\uXXXX escape".text
  | .extraData => "Extra data".text

/-- The problem and its place in `text`: line and column from one, characters from zero. -/
def Failure.message (failure : Failure) (text : Text) : Text :=
  let before := text.take (text.length - failure.rest.length)
  let column := (before.reverse.takeWhile (· != .char '\n')).length + 1
  failure.problem.message ++ ": line ".text ++ Text.ofNat (before.count (.char '\n') + 1) ++
    " column ".text ++ Text.ofNat column ++ " (char ".text ++
      Text.ofNat before.length ++ [.char ')']

def Excess.message : Excess → Text
  | .digits count =>
      "Exceeds the limit (".text ++ Text.ofNat digitLimit ++
        " digits) for integer string conversion: value has ".text ++ Text.ofNat count ++
        " digits; use sys.set_int_max_str_digits() to increase the limit".text
  | .arrays =>
      "maximum recursion depth exceeded while decoding a JSON array from a unicode string".text
  | .objects =>
      "maximum recursion depth exceeded while decoding a JSON object from a unicode string".text

end FontScaffold.Json
