import InstrumentBus.Text.Blank
import InstrumentBus.Text.Numeral
import InstrumentBus.Text.Quoted

/-!
# Hexadecimal text

Bytes are written as two lower-case digits each. Reading is tolerant: the text is
trimmed, one `0x` in front is dropped, and blanks and colons between digits are
ignored. Faults name a place in the text that is left, counted in UTF-8 bytes.
-/

namespace InstrumentBus
namespace Text
namespace Hex

def digit (n : Nat) : Char := Nat.digitChar n

def pair (byte : UInt8) : List Char := [digit (byte.toNat / 16), digit (byte.toNat % 16)]

def encode (bytes : List UInt8) : List Char := bytes.flatMap pair

def encodeText (bytes : List UInt8) : String := String.ofList (encode bytes)

/-- The character with the number of a byte. -/
def byteChar (byte : UInt8) : Char := Char.ofNat byte.toNat

/-- The value of a digit given as a byte, in either case. -/
def nibble? (byte : UInt8) : Option Nat := Numeral.digit? 16 (byteChar byte)

inductive Fault where
  | oddLength
  | badDigit (byte : UInt8) (index : Nat)
  deriving DecidableEq, Repr

/-- A byte that is no digit is shown as the character with its number, in quotes. -/
def Fault.message : Fault → String
  | .oddLength => "Odd number of digits"
  | .badDigit byte index =>
    s!"Invalid character {quoteCharacter (byteChar byte)} at position {index}"

/-- Pairs of digits from left to right, `index` counting the bytes before them. -/
def decodePairs (index : Nat) : List UInt8 → Except Fault (List UInt8)
  | [] => .ok []
  | [_] => .error .oddLength
  | a :: b :: rest =>
    match nibble? a with
    | none => .error (.badDigit a index)
    | some high =>
      match nibble? b with
      | none => .error (.badDigit b (index + 1))
      | some low =>
        match decodePairs (index + 2) rest with
        | .error fault => .error fault
        | .ok bytes => .ok (UInt8.ofNat (16 * high + low) :: bytes)

/-- The UTF-8 bytes of a text. -/
def utf8 (text : List Char) : List UInt8 := text.flatMap String.utf8EncodeChar

/-- An odd number of bytes is a fault whatever the bytes are. -/
def decodeStrict (text : List Char) : Except Fault (List UInt8) :=
  if (utf8 text).length % 2 ≠ 0 then .error .oddLength
  else decodePairs 0 (utf8 text)

def dropMark : List Char → List Char
  | '0' :: 'x' :: rest => rest
  | text => text

/-- What is left of a text without its margins, its mark and its separators. -/
def digitsOf (text : List Char) : List Char :=
  (dropMark (trim text)).filter fun c => !isBlank c && c != ':'

def decode (text : List Char) : Except Fault (List UInt8) := decodeStrict (digitsOf text)

@[simp] theorem encode_nil : encode [] = [] := rfl

@[simp] theorem encode_cons (b : UInt8) (bytes : List UInt8) :
    encode (b :: bytes) = pair b ++ encode bytes := rfl

end Hex
end Text
end InstrumentBus
