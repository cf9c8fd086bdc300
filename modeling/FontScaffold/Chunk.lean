import FontScaffold.Text.Basic

set_option autoImplicit false

namespace FontScaffold

/-- A score as a measure gives it. All kinds are exact, so that a comparison never hangs on
rounding. A binary floating-point number has its sign apart, since a zero may have one. -/
inductive Score where
  | whole (n : Int)
  | fraction (value : Rat)
  | double (value : Rat) (isNegative : Bool)
  deriving Repr, DecidableEq

/-- A whole number or a fraction without a binary floating-point number of double width near it. -/
inductive Overflow where
  | whole
  | fraction
  deriving Repr, DecidableEq

namespace Score

/-- The number by which scores are compared. -/
def value : Score → Rat
  | whole n => n
  | fraction value => value
  | double value _ => value

/-- The whole number nearest to `num / den`; a half goes to the even neighbour. -/
def roundDiv (num den : Nat) : Nat :=
  let quotient := num / den
  let twice := 2 * (num % den)
  if twice < den then quotient
  else if den < twice then quotient + 1
  else quotient + quotient % 2

/-- `num / den` times two to the power `shift`, as a numerator and a denominator. -/
def scaled (num den : Nat) (shift : Int) : Nat × Nat :=
  (num <<< shift.toNat, den <<< (-shift).toNat)

/-- The binary floating-point number of double width that is nearest to `num / den`, written as a
numerator of 53 binary digits and the power of two that divides it. That power is at most 1074, so a
smaller number has fewer digits. -/
def nearestBinary (num den : Nat) : Nat × Int :=
  let guess : Int := 53 + den.log2 - num.log2
  let wide := scaled num den guess
  let full := if wide.2 <<< 53 ≤ wide.1 then guess - 1 else guess
  let shift := min full 1074
  let exact := scaled num den shift
  (roundDiv exact.1 exact.2, shift)

def isHuge (value : Rat) : Bool :=
  let binary := nearestBinary value.num.natAbs value.den
  let rounded := scaled binary.1 1 (-binary.2)
  rounded.2 <<< 1024 ≤ rounded.1

/-- The magnitude in tenths, rounded from the nearest binary fraction. -/
def tenths (value : Rat) : Nat :=
  let binary := nearestBinary value.num.natAbs value.den
  let tens := scaled (10 * binary.1) 1 (-binary.2)
  roundDiv tens.1 tens.2

def decimal (isNegative : Bool) (value : Rat) : Text :=
  let n := tenths value
  (if isNegative then "-".text else []) ++ Text.ofNat (n / 10) ++ .char '.' :: Text.ofNat (n % 10)

def display : Score → Except Overflow Text
  | whole n => if isHuge n then .error .whole else .ok (decimal (n < 0) n)
  | fraction value => if isHuge value then .error .fraction else .ok (decimal (value < 0) value)
  | double value isNegative => .ok (decimal isNegative value)

end Score

def Overflow.message : Overflow → Text
  | .whole => "int too large to convert to float".text
  | .fraction => "integer division result too large for a float".text

end FontScaffold

namespace FontScaffold.Chunk

/-- The text cut after each occurrence of `separator`, found from the left without overlap.
An empty separator cuts nothing. -/
def split (separator body : Text) : List Text :=
  if empty : separator = [] then [body]
  else
    match found : Text.breakOn separator body with
    | none => [body]
    | some (before, after) =>
        have : after.length < body.length := Text.length_lt_of_breakOn empty found
        (before ++ separator) :: split separator after
termination_by body.length

theorem flatten_split (separator body : Text) : (split separator body).flatten = body := by
  fun_induction split separator body with
  | case1 body => simp
  | case2 body _ _ => simp
  | case3 body _ before after found _ ih =>
      simp [ih, Text.eq_append_of_breakOn found]

theorem split_ne_nil (separator body : Text) : split separator body ≠ [] := by
  fun_induction split separator body <;> simp

/-- The length, at most `limit`, of the longest beginning of `separator` that ends `chunk`. -/
def overlap (separator chunk : Text) : Nat → Nat
  | 0 => 0
  | limit + 1 =>
      if (separator.take (limit + 1)).isSuffixOf chunk then limit + 1
      else overlap separator chunk limit

/-- The chunk with what it lacks of the separator. -/
def complete (separator chunk : Text) : Text :=
  chunk ++ separator.drop (overlap separator chunk separator.length)

def completeInner (separator : Text) : List Text → List Text
  | [] => []
  | [last] => [last]
  | chunk :: next :: rest => complete separator chunk :: completeInner separator (next :: rest)

/-- The chunks of a finished text: all but the last completed, and only first occurrences kept. -/
def close (separator : Text) (chunks : List Text) : List Text :=
  (completeInner separator chunks).eraseDups

/-- The position of the last visible chunk, or of the last chunk if none shows. -/
def lastVisible (chunks : List Text) : Nat :=
  chunks.length - 1 - (chunks.reverse.findIdx? Text.isVisible).getD 0

/-- Puts `block` before the last visible chunk. -/
def insertBeforeLast (block : Text) (chunks : List Text) : List Text :=
  chunks.take (lastVisible chunks) ++ block :: chunks.drop (lastVisible chunks)

/-- Stands for a line break among the tokens, so that words of the next line count as later ones. -/
def lineBreak : Text := ['␤']

def wordLimit : Int := 4

/-- Writes each CR LF as a single LF. -/
def joinCrLf : Text → Text
  | [] => []
  | '\r' :: '\n' :: rest => '\n' :: joinCrLf rest
  | c :: rest => c :: joinCrLf rest

/-- The chunk without its trailing separator. -/
def dropSeparator (separator chunk : Text) : Text :=
  if separator.isSuffixOf chunk then chunk.take (chunk.length - separator.length) else chunk

/-- Commas and semicolons at the ends do not belong to a word. -/
def isPunctuation (c : CodePoint) : Bool :=
  c == ',' || c == ';'

/-- The first `limit` elements; a negative limit leaves out that many at the end instead. -/
def takeInt {α : Type} (limit : Int) (items : List α) : List α :=
  if limit < 0 then items.take (items.length - limit.natAbs) else items.take limit.toNat

/-- The pieces between the spaces of a chunk, with line breaks as words of their own. -/
def words (separator chunk : Text) : List Text :=
  let body := joinCrLf (Text.trimEnd (· == .char '\r') (dropSeparator separator chunk))
  (Text.replaceChar '\n' (.char ' ' :: lineBreak ++ [.char ' ']) body).splitOn (.char ' ')

/-- The first words of a chunk without punctuation; an empty piece is dropped but uses up its
place. -/
def tokensUpTo (limit : Int) (separator chunk : Text) : List Text :=
  ((takeInt limit (words separator chunk)).map (Text.trim isPunctuation)).filter (· ≠ [])

def tokens (separator chunk : Text) : List Text :=
  tokensUpTo wordLimit separator chunk

/-- The share of all tokens that the first chunk has and every other one too; a line break is never
shared. Chunks without any token, and fewer than two chunks, have nothing in common. -/
def similarity (separator : Text) (chunks : List Text) : Rat :=
  match chunks.map (tokens separator) with
  | first :: second :: others =>
      let all := (first :: second :: others).flatten.eraseDups
      let shared := first.eraseDups.filter fun token =>
        token != lineBreak && (second :: others).all (·.contains token)
      (shared.length : Rat) / (all.length : Rat)
  | _ => 0

end FontScaffold.Chunk

namespace FontScaffold

/-- A way to compare two chunks under a separator, and the score above which they match. -/
structure Matcher where
  score : (separator first second : Text) → Score
  threshold : Rat

namespace Matcher

/-- Compares by tokens; a match needs more than seven tenths. -/
def standard : Matcher where
  score := fun separator first second => .fraction (Chunk.similarity separator [first, second])
  threshold := 7 / 10

def accepts (matcher : Matcher) (separator first second : Text) : Bool :=
  matcher.threshold < (matcher.score separator first second).value

end Matcher

end FontScaffold
