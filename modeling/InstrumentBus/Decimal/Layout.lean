import InstrumentBus.Decimal.Shortest

/-!
# Decimal text of a double

A layout says when a number is written positionally, what follows a whole
number, how an exponent is marked and which way ties go. Fixed places round the
exact binary value instead of its shortest decimal.
-/

namespace InstrumentBus
namespace Decimal

open Numeric

structure Layout where
  tie : Tie
  /-- Whether a number is written positionally, by the power of ten of its leading digit. -/
  positional : Int → Bool
  /-- What follows a whole number written positionally. -/
  whole : String
  /-- What stands before an exponent that is not negative. -/
  plus : String

/-- Always positional, nothing after a whole number. -/
def plain : Layout := ⟨.up, fun _ => true, "", ""⟩

/-- Always with an exponent. -/
def scientific : Layout := ⟨.up, fun _ => false, "", ""⟩

/-- Positional from `1e-5` up to below `1e16`, with a point in every positional number. -/
def json : Layout := ⟨.even, fun e => decide (-5 ≤ e ∧ e ≤ 15), ".0", "+"⟩

def zeros (n : Nat) : String := String.ofList (List.replicate n '0')

/-- Digits with the point after `point` of them, zeros filling the gap. -/
def positionalText (whole : String) (digits : List Char) (point : Int) : String :=
  if point ≤ 0 then "0." ++ zeros (-point).toNat ++ String.ofList digits
  else if (digits.length : Int) ≤ point then
    String.ofList digits ++ zeros (point - digits.length).toNat ++ whole
  else
    String.ofList (digits.take point.toNat) ++ "." ++ String.ofList (digits.drop point.toNat)

/-- One digit before the point, and the power of ten of that digit after the mark. -/
def exponentText (plus : String) (digits : List Char) (leading : Int) : String :=
  let fraction := digits.drop 1
  String.ofList (digits.take 1)
    ++ (if fraction.isEmpty then "" else "." ++ String.ofList fraction)
    ++ "e" ++ (if leading < 0 then "-" else plus) ++ toString leading.natAbs

def Layout.magnitudeText (layout : Layout) (units : Nat) : String :=
  let d := if units = 0 then ⟨0, 0⟩ else shortest layout.tie units
  let digits := Nat.toDigits 10 d.digits
  let point := (digits.length : Int) + d.exponent
  if layout.positional (point - 1) then positionalText layout.whole digits point
  else exponentText layout.plus digits (point - 1)

def signText (negative : Bool) : String := if negative then "-" else ""

def Layout.render (layout : Layout) : Binary64 → String
  | .nan => "NaN"
  | .infinite negative => signText negative ++ "inf"
  | .finite negative m => signText negative ++ layout.magnitudeText m.units

/-- A magnitude rounded to a number of decimal places, a half going to the even digit. -/
def fixedMagnitude (places units : Nat) : String :=
  let n := nearestEven (units * Nat.pow 10 places) unitsPerOne
  let digits := Nat.toDigits 10 n
  let padded := List.replicate (places + 1 - digits.length) '0' ++ digits
  let front := padded.length - places
  String.ofList (padded.take front)
    ++ (if places = 0 then "" else "." ++ String.ofList (padded.drop front))

/-- Fixed places; the sign stays even when every digit shown is zero. -/
def fixed (places : Nat) : Binary64 → String
  | .nan => "NaN"
  | .infinite negative => signText negative ++ "inf"
  | .finite negative m => signText negative ++ fixedMagnitude places m.units

end Decimal
end InstrumentBus
