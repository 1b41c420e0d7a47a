import BoSyntax.Text.Hexadecimal

/-!
# UTF-8

Bytes as characters and back. A character takes one byte below 0x80, and otherwise a leading byte
that tells how many continuation bytes follow and which of them may come first, so that no character
has two spellings and no surrogate has one. Decoding stops at the first byte that cannot go on.
-/

namespace BoSyntax.Utf8

/-- Why bytes cannot be decoded. -/
inductive Reason where
  | invalidStart
  | invalidContinuation
  | unexpectedEnd
  deriving DecidableEq, Repr

/-- The words for a reason. -/
def Reason.text : Reason → String
  | .invalidStart => "invalid start byte"
  | .invalidContinuation => "invalid continuation byte"
  | .unexpectedEnd => "unexpected end of data"

/-- Bytes that cannot be decoded: the first of them, where it stands, and where they end. -/
structure DecodeFault where
  byte : UInt8
  first : Nat
  stop : Nat
  reason : Reason
  deriving DecidableEq, Repr

/-- A character that is not complete: its leading byte and where that stands, the value so far, how
many bytes are missing, and the bounds of the next one. -/
structure Pending where
  byte : UInt8
  first : Nat
  value : Nat
  missing : Nat
  low : UInt8
  high : UInt8
  deriving DecidableEq, Repr

/-- What a leading byte announces. -/
def lead? (byte : UInt8) (first : Nat) : Option Pending :=
  let value := byte.toNat
  if byte < 0xC2 then none
  else if byte < 0xE0 then some ⟨byte, first, value - 0xC0, 1, 0x80, 0xBF⟩
  else if byte = 0xE0 then some ⟨byte, first, value - 0xE0, 2, 0xA0, 0xBF⟩
  else if byte = 0xED then some ⟨byte, first, value - 0xE0, 2, 0x80, 0x9F⟩
  else if byte < 0xF0 then some ⟨byte, first, value - 0xE0, 2, 0x80, 0xBF⟩
  else if byte = 0xF0 then some ⟨byte, first, value - 0xF0, 3, 0x90, 0xBF⟩
  else if byte < 0xF4 then some ⟨byte, first, value - 0xF0, 3, 0x80, 0xBF⟩
  else if byte = 0xF4 then some ⟨byte, first, value - 0xF0, 3, 0x80, 0x8F⟩
  else none

/-- Decodes bytes from an offset on, after an incomplete character if there is one. -/
def decodeFrom : Option Pending → Nat → List UInt8 → Except DecodeFault (List Char)
  | none, _, [] => .ok []
  | some pending, offset, [] =>
    .error ⟨pending.byte, pending.first, offset, .unexpectedEnd⟩
  | none, offset, byte :: rest =>
    if byte < 0x80 then do
      return Char.ofNat byte.toNat :: (← decodeFrom none (offset + 1) rest)
    else match lead? byte offset with
      | some pending => decodeFrom (some pending) (offset + 1) rest
      | none => .error ⟨byte, offset, offset + 1, .invalidStart⟩
  | some pending, offset, byte :: rest =>
    if byte < pending.low ∨ pending.high < byte then
      .error ⟨pending.byte, pending.first, offset, .invalidContinuation⟩
    else
      let value := pending.value * 64 + (byte.toNat - 0x80)
      if pending.missing ≤ 1 then do
        return Char.ofNat value :: (← decodeFrom none (offset + 1) rest)
      else
        decodeFrom
          (some { pending with value, missing := pending.missing - 1, low := 0x80, high := 0xBF })
          (offset + 1) rest

/-- The characters that bytes stand for. -/
def decode (bytes : List UInt8) : Except DecodeFault (List Char) :=
  decodeFrom none 0 bytes

/-- The bytes of characters. -/
def encode (text : List Char) : List UInt8 :=
  text.flatMap String.utf8EncodeChar

/-- What is said of bytes that cannot be decoded. -/
def DecodeFault.message (fault : DecodeFault) : String :=
  let place :=
    if fault.stop = fault.first + 1 then
      "byte 0x" ++ Text.hexadecimal 2 fault.byte.toNat ++ " in position " ++ toString fault.first
    else
      "bytes in position " ++ toString fault.first ++ "-" ++ toString (fault.stop - 1)
  "'utf-8' codec can't decode " ++ place ++ ": " ++ fault.reason.text

end BoSyntax.Utf8
