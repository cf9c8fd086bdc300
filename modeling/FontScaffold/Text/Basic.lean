set_option autoImplicit false

namespace FontScaffold

/-- A code point: a character, or a surrogate, which is no character; `unit` counts surrogates from
U+D800 on. -/
inductive CodePoint where
  | char (c : Char)
  | lone (unit : Fin 0x800)
  deriving DecidableEq, Repr

instance : Coe Char CodePoint := ⟨CodePoint.char⟩

namespace CodePoint

def toNat : CodePoint → Nat
  | char c => c.toNat
  | lone unit => 0xd800 + unit

def ofNat (n : Nat) : CodePoint :=
  if surrogate : 0xd800 ≤ n ∧ n < 0xe000 then lone ⟨n - 0xd800, by omega⟩ else char (Char.ofNat n)

theorem toNat_lt (c : CodePoint) : c.toNat < 0x110000 := by
  cases c with
  | char c =>
      have valid : c.toNat < 0xd800 ∨ 0xdfff < c.toNat ∧ c.toNat < 0x110000 := c.valid
      rw [toNat]
      omega
  | lone unit =>
      rw [toNat]
      omega

theorem ofNat_toNat (c : CodePoint) : ofNat c.toNat = c := by
  cases c with
  | char c =>
      have valid : c.toNat < 0xd800 ∨ 0xdfff < c.toNat ∧ c.toNat < 0x110000 := c.valid
      rw [ofNat, toNat, dif_neg (by omega), Char.ofNat_toNat]
  | lone unit =>
      rw [ofNat, toNat, dif_pos (by omega)]
      exact congrArg lone (Fin.ext (Nat.add_sub_cancel_left _ _))

theorem toNat_inj {c d : CodePoint} : c.toNat = d.toNat ↔ c = d := by
  constructor
  · intro same
    rw [← ofNat_toNat c, same, ofNat_toNat]
  · exact congrArg toNat

def isLone : CodePoint → Bool
  | char _ => false
  | lone _ => true

def isDigit : CodePoint → Bool
  | char c => c.isDigit
  | lone _ => false

end CodePoint

/-- A text is the sequence of its code points; lengths and positions count them. -/
abbrev Text := List CodePoint

end FontScaffold

def String.text (literal : String) : FontScaffold.Text :=
  literal.toList.map FontScaffold.CodePoint.char

namespace FontScaffold

namespace Text

/-- What stands before and after the leftmost occurrence of `pattern`. -/
def breakOn (pattern : Text) : Text → Option (Text × Text)
  | [] => if pattern.isEmpty then some ([], []) else none
  | c :: rest =>
      if pattern.isPrefixOf (c :: rest) then some ([], (c :: rest).drop pattern.length)
      else (breakOn pattern rest).map fun found => (c :: found.1, found.2)

theorem eq_append_of_breakOn {pattern text before after : Text}
    (found : breakOn pattern text = some (before, after)) :
    text = before ++ pattern ++ after := by
  induction text generalizing before after with
  | nil =>
      simp only [breakOn] at found
      split at found
      · next empty => simp_all
      · cases found
  | cons c rest ih =>
      simp only [breakOn] at found
      split at found
      · next starts =>
          obtain ⟨tail, same⟩ := List.isPrefixOf_iff_prefix.mp starts
          simp only [Option.some.injEq, Prod.mk.injEq] at found
          obtain ⟨rfl, rfl⟩ := found
          simp [← same]
      · cases later : breakOn pattern rest with
        | none => simp [later] at found
        | some parts =>
            simp only [later, Option.map_some, Option.some.injEq, Prod.mk.injEq] at found
            obtain ⟨rfl, rfl⟩ := found
            have tail : rest = parts.1 ++ pattern ++ parts.2 := ih later
            simp [tail]

theorem length_lt_of_breakOn {pattern text before after : Text} (nonempty : pattern ≠ [])
    (found : breakOn pattern text = some (before, after)) : after.length < text.length := by
  have positive := List.length_pos_iff.mpr nonempty
  have total := congrArg List.length (eq_append_of_breakOn found)
  simp only [List.length_append] at total
  omega

def occursIn (pattern text : Text) : Bool :=
  (breakOn pattern text).isSome

def replaceFirst (old new text : Text) : Text :=
  match breakOn old text with
  | none => text
  | some (before, after) => before ++ new ++ after

def replaceChar (old : CodePoint) (new text : Text) : Text :=
  text.flatMap fun c => if c = old then new else [c]

/-- Drops the longest tail of characters in `drops`. -/
def trimEnd (drops : CodePoint → Bool) (text : Text) : Text :=
  (text.reverse.dropWhile drops).reverse

def trim (drops : CodePoint → Bool) (text : Text) : Text :=
  trimEnd drops (text.dropWhile drops)

def ofNat (n : Nat) : Text :=
  (Nat.toDigits 10 n).map .char

def ofInt : Int → Text
  | .ofNat n => ofNat n
  | .negSucc n => '-' :: ofNat (n + 1)

/-- A number in lower-case hexadecimal, padded with zeros to `width` digits. -/
def hex (width n : Nat) : Text :=
  let digits := (Nat.toDigits 16 n).map CodePoint.char
  List.replicate (width - digits.length) (.char '0') ++ digits

/-- White space: tab to carriage return, the separators from FS to US, the space, NEL and the
space, line and paragraph separators of Unicode. -/
def isBlank (c : CodePoint) : Bool :=
  let n := c.toNat
  (0x09 ≤ n && n ≤ 0x0d) || (0x1c ≤ n && n ≤ 0x20) || n == 0x85 || n == 0xa0 || n == 0x1680 ||
    (0x2000 ≤ n && n ≤ 0x200a) || n == 0x2028 || n == 0x2029 || n == 0x202f || n == 0x205f ||
    n == 0x3000

def strip (text : Text) : Text :=
  trim isBlank text

/-- Whether some character shows. -/
def isVisible (text : Text) : Bool :=
  text.any fun c => !isBlank c

/-- The lines of a file: each ends with LF, CR LF or a lone CR, which it keeps; the last may lack
its end. -/
def lines : Text → List Text
  | [] => []
  | '\r' :: '\n' :: rest => ['\r', '\n'] :: lines rest
  | c :: rest =>
      if c = '\n' ∨ c = '\r' then [c] :: lines rest
      else
        match lines rest with
        | [] => [[c]]
        | line :: more => (c :: line) :: more

theorem flatten_lines (text : Text) : (lines text).flatten = text := by
  fun_induction lines text with
  | case1 => rfl
  | case2 rest ih => simp [ih]
  | case3 c rest _ _ ih => simp [ih]
  | case4 c rest _ _ none ih => simp_all
  | case5 c rest _ _ line more some ih => simp_all

/-- The lines of a text that may go on, as far as they have their end, and the beginning of the next
one. A CR at the end belongs to that, since it may be half of a line end. -/
def endedLines : Text → List Text × Text
  | [] => ([], [])
  | ['\r'] => ([], ['\r'])
  | '\r' :: '\n' :: rest =>
      let (ended, begun) := endedLines rest
      (['\r', '\n'] :: ended, begun)
  | c :: rest =>
      let (ended, begun) := endedLines rest
      if c = '\n' ∨ c = '\r' then ([c] :: ended, begun)
      else
        match ended with
        | [] => ([], c :: begun)
        | line :: more => ((c :: line) :: more, begun)

/-- The characters at which a reader sees a line break. -/
def isBreak (c : CodePoint) : Bool :=
  let n := c.toNat
  (0x0a ≤ n && n ≤ 0x0d) || (0x1c ≤ n && n ≤ 0x1e) || n == 0x85 || n == 0x2028 || n == 0x2029

/-- The lines that a reader sees, without their ends; CR LF is one break. -/
def visibleLines : Text → List Text
  | [] => []
  | '\r' :: '\n' :: rest => [] :: visibleLines rest
  | c :: rest =>
      if isBreak c then [] :: visibleLines rest
      else
        match visibleLines rest with
        | [] => [[c]]
        | line :: more => (c :: line) :: more

/-- Whether some line reads `wanted` when blanks at its ends are left out. -/
def hasLine (wanted text : Text) : Bool :=
  (visibleLines text).any fun line => strip line == wanted

end Text

end FontScaffold
