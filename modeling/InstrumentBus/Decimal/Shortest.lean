import InstrumentBus.Numeric.Rounding

/-!
# Shortest decimal of a double

Among the decimals that read back as a given double, the shortest one nearest to
it. All comparisons are between natural numbers: magnitudes are counted in
quarter units, so that the midpoints to both neighbours are whole.
-/

namespace InstrumentBus
namespace Decimal

open Numeric

/-- The number `digits * 10 ^ exponent`. -/
structure Scaled where
  digits : Nat
  exponent : Int
  deriving DecidableEq, Repr

/-- Which of two equally near decimals is taken. -/
inductive Tie where
  | up
  | even
  deriving DecidableEq, Repr

/-- The number of decimal digits of `n`; zero has none. -/
def digitCount (n : Nat) : Nat :=
  if n = 0 then 0 else (Nat.toDigits 10 n).length

/-- The power of ten of the leading digit of `units / unitsPerOne`. -/
def leadingExponent (units : Nat) : Int :=
  if unitsPerOne ≤ units then (digitCount (units / unitsPerOne) : Int) - 1
  else -(digitCount ((unitsPerOne + units - 1) / units - 1) : Int)

/-- The reals that round to a magnitude, in quarter units. The ends belong to
them exactly when the significand is even. -/
structure Interval where
  low : Nat
  high : Nat
  closed : Bool

/-- Below a power of two the neighbour is only half as far. -/
def roundingInterval (units : Nat) : Interval :=
  let step := Nat.pow 2 (spacing units)
  let below := if units = 0x10000000000000 * step ∧ 1 < step then step / 2 else step
  ⟨4 * units - 2 * below, 4 * units + 2 * step, units / step % 2 == 0⟩

def Interval.contains (i : Interval) (num den : Nat) : Bool :=
  if i.closed then i.low * den ≤ num && num ≤ i.high * den
  else i.low * den < num && num < i.high * den

/-- The decimal nearest to a magnitude among the multiples of `10 ^ exponent`
that read back as it. Only the two multiples around it can be nearest. -/
def nearestOnGrid (tie : Tie) (units : Nat) (exponent : Int) : Option Scaled :=
  let num := 4 * unitsPerOne * Nat.pow 10 exponent.toNat
  let den := Nat.pow 10 (-exponent).toNat
  let value := 4 * units * den
  let below := value / num
  let interval := roundingInterval units
  let low := interval.contains (below * num) den
  let high := interval.contains ((below + 1) * num) den
  let rest := value - below * num
  if low && high then
    if 2 * rest < num then some ⟨below, exponent⟩
    else if num < 2 * rest then some ⟨below + 1, exponent⟩
    else match tie with
      | .up => some ⟨below + 1, exponent⟩
      | .even => some ⟨below + below % 2, exponent⟩
  else if low then some ⟨below, exponent⟩
  else if high then some ⟨below + 1, exponent⟩
  else none

/-- A round ten stands for one of the next power. -/
def Scaled.carry (d : Scaled) : Scaled :=
  if d.digits = 10 then ⟨1, d.exponent + 1⟩ else d

/-- The shortest decimal of a positive magnitude. Seventeen digits always suffice. -/
def shortest (tie : Tie) (units : Nat) : Scaled :=
  let top := leadingExponent units
  match (List.range 17).findSome? fun (i : Nat) => nearestOnGrid tie units (top - i) with
  | some d => d.carry
  | none => ⟨0, 0⟩

end Decimal
end InstrumentBus
