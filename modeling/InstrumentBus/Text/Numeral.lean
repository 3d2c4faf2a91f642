/-!
# Unsigned numerals

A numeral is an optional plus sign and digits of a radix, read from left to
right; the first character that is no digit or that carries the value past its
bound decides the fault.
-/

namespace InstrumentBus
namespace Text
namespace Numeral

inductive Fault where
  | empty
  | badDigit
  | tooLarge
  deriving DecidableEq, Repr

def Fault.message : Fault → String
  | .empty => "cannot parse integer from empty string"
  | .badDigit => "invalid digit found in string"
  | .tooLarge => "number too large to fit in target type"

/-- The value of an ASCII digit, or of a letter in either case from ten on. -/
def digitValue? (c : Char) : Option Nat :=
  if 48 ≤ c.toNat ∧ c.toNat ≤ 57 then some (c.toNat - 48)
  else if 97 ≤ c.toNat ∧ c.toNat ≤ 122 then some (c.toNat - 87)
  else if 65 ≤ c.toNat ∧ c.toNat ≤ 90 then some (c.toNat - 55)
  else none

/-- The value of a digit of a radix. -/
def digit? (radix : Nat) (c : Char) : Option Nat := (digitValue? c).filter (· < radix)

/-- Digits after a value already read; the value stays below the bound. -/
def digitsAfter (radix bound value : Nat) : List Char → Except Fault Nat
  | [] => .ok value
  | c :: rest =>
    match digit? radix c with
    | none => .error .badDigit
    | some d =>
      if radix * value + d < bound then digitsAfter radix bound (radix * value + d) rest
      else .error .tooLarge

/-- A numeral below a bound. A sign alone has no digits to be empty of: it is a bad digit. -/
def parse (radix bound : Nat) : List Char → Except Fault Nat
  | [] => .error .empty
  | [c] => if c = '+' ∨ c = '-' then .error .badDigit else digitsAfter radix bound 0 [c]
  | c :: rest => if c = '+' then digitsAfter radix bound 0 rest
    else digitsAfter radix bound 0 (c :: rest)

/-- A numeral in radix sixteen after `0x` or `0X`, else in radix ten. -/
def parseMarked (bound : Nat) : List Char → Except Fault Nat
  | '0' :: 'x' :: rest => parse 16 bound rest
  | '0' :: 'X' :: rest => parse 16 bound rest
  | text => parse 10 bound text

theorem digit?_lt {radix : Nat} {c : Char} {d : Nat} (h : digit? radix c = some d) :
    d < radix := by
  have := (Option.filter_eq_some_iff.1 h).2
  simpa using this

end Numeral
end Text
end InstrumentBus
