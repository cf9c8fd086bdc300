import FontScaffold.Text.Basic

set_option autoImplicit false

namespace FontScaffold.Json

inductive Value where
  | null
  | bool (value : Bool)
  | number (literal : Text)
  | string (text : Text)
  | array (items : List Value)
  | object (members : List (Text × Value))
  deriving Repr

namespace Value

/-- The member of a name; the last of several with one name counts. -/
def member? (name : Text) (members : List (Text × Value)) : Option Value :=
  (members.reverse.find? fun member => member.1 == name).map Prod.snd

def text? : Value → Option Text
  | string text => some text
  | _ => none

end Value

def digits (literal : Text) : Text × Text :=
  (literal.takeWhile CodePoint.isDigit, literal.dropWhile CodePoint.isDigit)

def natOf (digits : Text) : Nat :=
  digits.foldl (fun n c => 10 * n + (c.toNat - '0'.toNat)) 0

/-- Whether `mantissa · 10 ^ exponent` is so small that no positive binary floating-point number of
double width is nearer than zero: at most two to the power -1075. Exponents beyond the number of
digits by more than 400 are decided without computing the power. -/
def vanishes (mantissa : Nat) (digitCount : Nat) (exponent : Int) : Bool :=
  if mantissa = 0 then true
  else if 0 ≤ exponent then false
  else if exponent + digitCount < -400 then true
  else mantissa <<< 1075 ≤ Nat.pow 10 (-exponent).toNat

/-- The exponent part of a literal, zero if it has none. -/
def exponentOf : Text → Int
  | 'e' :: '-' :: rest | 'E' :: '-' :: rest => -(natOf rest : Int)
  | 'e' :: '+' :: rest | 'E' :: '+' :: rest => natOf rest
  | 'e' :: rest | 'E' :: rest => natOf rest
  | _ => 0

def isZero (literal : Text) : Bool :=
  let unsigned := if literal.head? = some (.char '-') then literal.drop 1 else literal
  let whole := digits unsigned
  if whole.1.isEmpty then false
  else
    match whole.2 with
    | '.' :: rest =>
        let part := digits rest
        let all := whole.1 ++ part.1
        vanishes (natOf all) all.length (exponentOf part.2 - part.1.length)
    | rest => vanishes (natOf whole.1) whole.1.length (exponentOf rest)

/-- Whether a value counts as true: all but null, false, zero and what is empty. -/
def Value.holds : Value → Bool
  | null => false
  | bool value => value
  | number literal => !isZero literal
  | string text => !text.isEmpty
  | array items => !items.isEmpty
  | object members => !members.isEmpty

def unitEscape (unit : Nat) : Text :=
  '\\' :: 'u' :: Text.hex 4 unit

/-- A character inside a string. -/
def escapedChar (c : CodePoint) : Text :=
  let n := c.toNat
  if c = '"' then ['\\', '"']
  else if c = '\\' then ['\\', '\\']
  else if c = '\n' then ['\\', 'n']
  else if c = '\r' then ['\\', 'r']
  else if c = '\t' then ['\\', 't']
  else if n = 0x0c then ['\\', 'f']
  else if n = 0x08 then ['\\', 'b']
  else if 0x20 ≤ n ∧ n < 0x7f then [c]
  else if n < 0x10000 then unitEscape n
  else
    unitEscape (0xd800 + (n - 0x10000) / 0x400) ++ unitEscape (0xdc00 + (n - 0x10000) % 0x400)

def string (text : Text) : Text :=
  .char '"' :: text.flatMap escapedChar ++ [.char '"']

def boolean (value : Bool) : Text :=
  if value then "true".text else "false".text

/-- Where line breaks go: nowhere, or after each item with the given indentation. -/
inductive Style where
  | inline
  | indented (depth : Nat)

namespace Style

def deeper : Style → Style
  | inline => inline
  | indented depth => indented (depth + 1)

/-- Before the first item and, one level up, after the last. -/
def lineBreak : Style → Text
  | inline => []
  | indented depth => '\n' :: List.replicate (2 * depth) ' '

/-- Between two items. -/
def separator (style : Style) : Text :=
  match style with
  | inline => [',', ' ']
  | indented _ => ',' :: style.lineBreak

def enclose (style : Style) (opening closing : CodePoint) (items : List Text) : Text :=
  if items.isEmpty then [opening, closing]
  else
    opening :: style.deeper.lineBreak ++ style.deeper.separator.intercalate items ++
      style.lineBreak ++ [closing]

end Style

mutual

def print (style : Style) : Value → Text
  | .null => "null".text
  | .bool value => boolean value
  | .number literal => literal
  | .string text => string text
  | .array items => style.enclose '[' ']' (printItems style.deeper items)
  | .object members => style.enclose '\x7b' '\x7d' (printMembers style.deeper members)

def printItems (style : Style) : List Value → List Text
  | [] => []
  | item :: rest => print style item :: printItems style rest

def printMembers (style : Style) : List (Text × Value) → List Text
  | [] => []
  | (name, value) :: rest =>
      (string name ++ [.char ':', .char ' '] ++ print style value) :: printMembers style rest

end

end FontScaffold.Json
