import InstrumentBus.Numeric.Rounding

/-!
# Reading decimals

The text of a number is an optional sign, digits with at most one point among or
around them, and an optional exponent; or one of the words for the values that
are not numbers, in any case. The result is the nearest double.
-/

namespace InstrumentBus
namespace Decimal

open Numeric

inductive ReadError where
  | empty
  | invalid
  deriving DecidableEq, Repr

def ReadError.message : ReadError → String
  | .empty => "cannot parse float from empty string"
  | .invalid => "invalid float literal"

/-- The value of a run of decimal digits. -/
def digitsValue (digits : List Char) : Nat :=
  digits.foldl (fun n c => 10 * n + (c.toNat - '0'.toNat)) 0

/-- The leading digits of a text and what follows them. -/
def spanDigits (text : List Char) : List Char × List Char :=
  (text.takeWhile Char.isDigit, text.dropWhile Char.isDigit)

/-- A sign in front of a text, true for a minus. -/
def takeSign : List Char → Bool × List Char
  | '-' :: rest => (true, rest)
  | '+' :: rest => (false, rest)
  | text => (false, text)

/-- The exponent that ends a number: nothing, or a mark, a sign and digits. -/
def readExponent : List Char → Option Int
  | [] => some 0
  | c :: rest =>
    if c = 'e' ∨ c = 'E' then
      let (negative, digits) := takeSign rest
      if digits.isEmpty || !digits.all Char.isDigit then none
      else some (if negative then -(digitsValue digits : Int) else digitsValue digits)
    else none

/-- The digits after a point, if there is one. -/
def takeFraction : List Char → List Char × List Char
  | '.' :: rest => spanDigits rest
  | text => ([], text)

def readUnsigned (negative : Bool) (text : List Char) : Option Binary64 :=
  let (whole, rest) := spanDigits text
  let (fraction, rest) := takeFraction rest
  if whole.isEmpty && fraction.isEmpty then none
  else (readExponent rest).map fun exponent =>
    Binary64.ofDecimal negative (digitsValue (whole ++ fraction)) (exponent - fraction.length)

def readWord (negative : Bool) (text : List Char) : Option Binary64 :=
  let word := String.ofList (text.map Char.toLower)
  if word = "nan" then some .nan
  else if word = "inf" ∨ word = "infinity" then some (.infinite negative)
  else none

/-- The double a text denotes. -/
def read (text : List Char) : Except ReadError Binary64 :=
  if text.isEmpty then .error .empty
  else
    let (negative, body) := takeSign text
    match readUnsigned negative body with
    | some x => .ok x
    | none =>
      match readWord negative body with
      | some x => .ok x
      | none => .error .invalid

end Decimal
end InstrumentBus
