import FontScaffold.Text.Basic

set_option autoImplicit false

namespace FontScaffold

abbrev Bytes := List UInt8

namespace Utf8

def encodeChars (chars : List Char) : Bytes :=
  chars.flatMap String.utf8EncodeChar

/-- The bytes of a code point. A surrogate has none, but `escaping`, as in the names of files, one
that stands for a byte of no character is that byte. -/
def encodePoint? (escaping : Bool) : CodePoint → Option Bytes
  | .char c => some (String.utf8EncodeChar c)
  | .lone unit =>
      if escaping ∧ 0x480 ≤ unit.val ∧ unit.val < 0x500 then some [UInt8.ofNat (unit.val - 0x400)]
      else none

/-- Surrogates that have no bytes: the position of the first, and all from there to the next
character. -/
structure EncodeFault where
  position : Nat
  run : Text
  deriving Repr, DecidableEq

/-- Encodes from some position on. -/
def encodeFrom (escaping : Bool) (position : Nat) : Text → Except EncodeFault Bytes
  | [] => .ok []
  | c :: rest =>
      match encodePoint? escaping c with
      | none => .error ⟨position, c :: rest.takeWhile CodePoint.isLone⟩
      | some bytes => (encodeFrom escaping (position + 1) rest).map (bytes ++ ·)

def encode (text : Text) : Except EncodeFault Bytes :=
  encodeFrom false 0 text

/-- The bytes of a path or of the name of a file. -/
def encodeName (name : Text) : Except EncodeFault Bytes :=
  encodeFrom true 0 name

def EncodeFault.message (fault : EncodeFault) : Text :=
  let place :=
    match fault.run with
    | [c] =>
        "character '\\u".text ++ Text.hex 4 c.toNat ++ "' in position ".text ++
          Text.ofNat fault.position
    | run =>
        "characters in position ".text ++ Text.ofNat fault.position ++ .char '-' ::
          Text.ofNat (fault.position + run.length - 1)
  "'utf-8' codec can't encode ".text ++ place ++ ": surrogates not allowed".text

inductive Reason where
  | invalidStart
  | invalidContinuation
  | unexpectedEnd
  deriving Repr, DecidableEq

/-- A bad sequence: the offset of its first byte, its bytes as far as they are a beginning of some
character, or the one byte that begins none, and the reason. -/
structure Fault where
  position : Nat
  bytes : Bytes
  reason : Reason
  deriving Repr, DecidableEq

/-- A sequence not yet at its end: how many bytes it lacks, the range of the next one, the bits so
far and the bytes so far. -/
structure Pending where
  missing : Nat
  low : Nat
  high : Nat
  bits : Nat
  bytes : Bytes

namespace Pending

/-- The sequence that a first byte of 0x80 or more begins. The range of the second byte leaves out
overlong forms, surrogates and what lies beyond the last code point. -/
def start? (byte : UInt8) : Option Pending :=
  let n := byte.toNat
  if 0xc2 ≤ n ∧ n ≤ 0xdf then some ⟨1, 0x80, 0xbf, n - 0xc0, [byte]⟩
  else if n = 0xe0 then some ⟨2, 0xa0, 0xbf, 0, [byte]⟩
  else if n = 0xed then some ⟨2, 0x80, 0x9f, 0xd, [byte]⟩
  else if 0xe1 ≤ n ∧ n ≤ 0xef then some ⟨2, 0x80, 0xbf, n - 0xe0, [byte]⟩
  else if n = 0xf0 then some ⟨3, 0x90, 0xbf, 0, [byte]⟩
  else if 0xf1 ≤ n ∧ n ≤ 0xf3 then some ⟨3, 0x80, 0xbf, n - 0xf0, [byte]⟩
  else if n = 0xf4 then some ⟨3, 0x80, 0x8f, 4, [byte]⟩
  else none

def accepts (pending : Pending) (byte : UInt8) : Bool :=
  pending.low ≤ byte.toNat && byte.toNat ≤ pending.high

def withByte (pending : Pending) (byte : UInt8) : Pending :=
  ⟨pending.missing - 1, 0x80, 0xbf, pending.bits * 64 + (byte.toNat - 0x80),
    pending.bytes ++ [byte]⟩

end Pending

/-- Decodes from a point inside or between sequences; `position` is where the sequence begins. -/
def decodeFrom (position : Nat) : Option Pending → Bytes → Except Fault Text
  | none, [] => .ok []
  | some pending, [] => .error ⟨position, pending.bytes, .unexpectedEnd⟩
  | none, byte :: rest =>
      if byte < 0x80 then
        (decodeFrom (position + 1) none rest).map (.char (Char.ofNat byte.toNat) :: ·)
      else
        match Pending.start? byte with
        | none => .error ⟨position, [byte], .invalidStart⟩
        | some pending => decodeFrom position (some pending) rest
  | some pending, byte :: rest =>
      if pending.accepts byte then
        let longer := pending.withByte byte
        if longer.missing = 0 then
          (decodeFrom (position + longer.bytes.length) none rest).map
            (.char (Char.ofNat longer.bits) :: ·)
        else decodeFrom position (some longer) rest
      else .error ⟨position, pending.bytes, .invalidContinuation⟩

def decode (bytes : Bytes) : Except Fault Text :=
  decodeFrom 0 none bytes

/-- Whether a fault may go away as bytes are added: the sequence breaks off at their end. What
begins like half of a surrogate pair is looked at whole, so it breaks off after its second byte
too. -/
def Fault.breaksOff (fault : Fault) (bytes : Bytes) : Bool :=
  match fault.reason, bytes.drop fault.position with
  | .unexpectedEnd, _ => true
  | .invalidContinuation, [first, second] => first == 0xed && 0xa0 ≤ second && second ≤ 0xbf
  | _, _ => false

/-- How many bytes can be decoded before more are there: all but those of a sequence that breaks
off. -/
def settledLength (bytes : Bytes) : Nat :=
  match decode bytes with
  | .ok _ => bytes.length
  | .error fault => if fault.breaksOff bytes then fault.position else bytes.length

/-- Decodes bytes that more may follow: the text, and the bytes that wait for those. -/
def decodePart (bytes : Bytes) : Except Fault (Text × Bytes) :=
  let size := settledLength bytes
  (decode (bytes.take size)).map fun text => (text, bytes.drop size)

def Reason.message : Reason → Text
  | .invalidStart => "invalid start byte".text
  | .invalidContinuation => "invalid continuation byte".text
  | .unexpectedEnd => "unexpected end of data".text

def Fault.message (fault : Fault) : Text :=
  let place :=
    match fault.bytes with
    | [byte] =>
        "byte 0x".text ++ Text.hex 2 byte.toNat ++ " in position ".text ++
          Text.ofNat fault.position
    | bytes =>
        "bytes in position ".text ++ Text.ofNat fault.position ++ .char '-' ::
          Text.ofNat (fault.position + bytes.length - 1)
  "'utf-8' codec can't decode ".text ++ place ++ ": ".text ++ fault.reason.message

end Utf8

end FontScaffold

def String.utf8 (literal : String) : FontScaffold.Bytes :=
  FontScaffold.Utf8.encodeChars literal.toList
