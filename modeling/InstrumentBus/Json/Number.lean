import InstrumentBus.Json.Value
import InstrumentBus.Numeric.Arithmetic
import InstrumentBus.Decimal.Reader

/-!
# JSON numbers

A literal that is an integer of 64 bits is read exactly. Any other one is read in
two roundings: the digits that fit 64 bits, as a double, are multiplied or
divided once by a rounded power of ten. A literal past the largest double is
malformed.
-/

namespace InstrumentBus
namespace Json

open Numeric
open Decimal (digitsValue)

/-- Why a text is no JSON value: it ends too early, or it breaks a rule. -/
inductive Fault where
  | truncated
  | malformed
  deriving DecidableEq, Repr

/-- The fault of a text that should go on, by what is left of it. -/
def faultAt : List Char → Fault
  | [] => .truncated
  | _ :: _ => .malformed

structure Literal where
  negative : Bool
  whole : List Char
  /-- The digits after the point, if there is one. -/
  fraction : Option (List Char)
  /-- Whether the exponent is negative, and its digits. -/
  exponent : Option (Bool × List Char)

/-- Digits appended to a significand as long as it stays below `2 ^ 64`, and how many were. -/
def significandFrom (significand used : Nat) : List Char → Nat × Nat
  | [] => (significand, used)
  | c :: rest =>
    let next := 10 * significand + (c.toNat - '0'.toNat)
    if next < 0x10000000000000000 then significandFrom next (used + 1) rest else (significand, used)

def powerOfTen (n : Nat) : Binary64 := .ofDecimal false 1 n

/-- A significand scaled by a power of ten. A quotient by more than the largest
power of ten is taken in two steps. -/
def scale (negative : Bool) (significand : Nat) (exponent : Int) : Except Fault Binary64 :=
  let x := Binary64.ofNat significand
  let signed (y : Binary64) := if negative then y.neg else y
  if significand = 0 then .ok (signed x)
  else if 308 < exponent then .error .malformed
  else if 0 ≤ exponent then
    let y := x.mul (powerOfTen exponent.toNat)
    if y.isFinite then .ok (signed y) else .error .malformed
  else if -308 ≤ exponent then .ok (signed (x.div (powerOfTen (-exponent).toNat)))
  else if -616 ≤ exponent then
    .ok (signed ((x.div (powerOfTen 308)).div (powerOfTen (-exponent - 308).toNat)))
  else .ok (signed (Binary64.zero false))

/-- The literal as a double. -/
def Literal.double (l : Literal) : Except Fault Binary64 :=
  let (whole, used) := significandFrom 0 0 l.whole
  let (significand, usedAfter) := significandFrom whole 0 (l.fraction.getD [])
  let start : Int := (l.whole.length - used : Nat) - (usedAfter : Int)
  match l.exponent with
  | none => scale l.negative significand start
  | some (down, digits) =>
    scale l.negative significand (if down then start - digitsValue digits else start + digitsValue digits)

def Literal.number (l : Literal) : Except Fault Number :=
  let n : Int := if l.negative then -(digitsValue l.whole : Int) else digitsValue l.whole
  if l.fraction.isNone && l.exponent.isNone && decide (-0x8000000000000000 ≤ n ∧ n < 0x10000000000000000)
      && !(l.negative && n == 0) then
    .ok (.integer n)
  else l.double.map .double

/-- The exponent after a mark: a sign and at least one digit. -/
def scanExponent (text : List Char) : Except Fault (Option (Bool × List Char)) × List Char :=
  let body := match text with
    | '-' :: rest => (true, rest)
    | '+' :: rest => (false, rest)
    | rest => (false, rest)
  let digits := body.2.takeWhile Char.isDigit
  let rest := body.2.dropWhile Char.isDigit
  if digits.isEmpty then (.error (faultAt rest), rest) else (.ok (some (body.1, digits)), rest)

theorem length_scanExponent (text : List Char) :
    (scanExponent text).2.length ≤ text.length := by
  have hd : ∀ l : List Char, (l.dropWhile Char.isDigit).length ≤ l.length := fun l =>
    (List.dropWhile_suffix _).length_le
  unfold scanExponent
  split
  · next rest => have := hd rest; dsimp only; split <;> simp <;> omega
  · next rest => have := hd rest; dsimp only; split <;> simp <;> omega
  · have := hd text; dsimp only; split <;> simpa

/-- What may follow the digits before and after the point. -/
def scanTail (text : List Char) : Except Fault (Option (Bool × List Char)) × List Char :=
  match text with
  | [] => (.ok none, [])
  | c :: rest => if c = 'e' ∨ c = 'E' then scanExponent rest else (.ok none, c :: rest)

theorem length_scanTail (text : List Char) : (scanTail text).2.length ≤ text.length := by
  cases text with
  | nil => simp [scanTail]
  | cons c rest =>
    simp only [scanTail]
    split
    · have := length_scanExponent rest; simp only [List.length_cons]; omega
    · simp

/-- The fraction after the digits before a point: at least one digit. -/
def scanFraction (text : List Char) : Except Fault (Option (List Char)) × List Char :=
  match text with
  | '.' :: rest =>
    let digits := rest.takeWhile Char.isDigit
    let after := rest.dropWhile Char.isDigit
    if digits.isEmpty then (.error (faultAt after), after) else (.ok (some digits), after)
  | rest => (.ok none, rest)

theorem length_scanFraction (text : List Char) : (scanFraction text).2.length ≤ text.length := by
  unfold scanFraction
  split
  · next rest =>
    have := (List.dropWhile_suffix (l := rest) Char.isDigit).length_le
    dsimp only
    split <;> simp <;> omega
  · simp

/-- A number without its sign, and what follows it. A zero in front must stand alone. -/
def scanNumber (negative : Bool) (text : List Char) : Except Fault Number × List Char :=
  let whole := text.takeWhile Char.isDigit
  let rest := text.dropWhile Char.isDigit
  if whole.isEmpty then (.error (faultAt rest), rest)
  else if whole.head? = some '0' ∧ 1 < whole.length then (.error .malformed, rest)
  else
    match scanFraction rest with
    | (.error fault, after) => (.error fault, after)
    | (.ok fraction, after) =>
      match scanTail after with
      | (.error fault, last) => (.error fault, last)
      | (.ok exponent, last) => (Literal.number ⟨negative, whole, fraction, exponent⟩, last)

theorem length_scanNumber (negative : Bool) (text : List Char) :
    (scanNumber negative text).2.length ≤ (text.dropWhile Char.isDigit).length := by
  have h2 := length_scanFraction (text.dropWhile Char.isDigit)
  unfold scanNumber
  dsimp only
  split
  · exact Nat.le_refl _
  · split
    · exact Nat.le_refl _
    · split
      · next h => rw [h] at h2; exact h2
      · next fraction after h =>
        rw [h] at h2
        have h3 := length_scanTail after
        split
        · next h' => rw [h'] at h3; exact Nat.le_trans h3 h2
        · next h' => rw [h'] at h3; exact Nat.le_trans h3 h2

end Json
end InstrumentBus
