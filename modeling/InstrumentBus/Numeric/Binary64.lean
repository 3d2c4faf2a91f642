/-!
# Double precision numbers

A finite double is a sign and a magnitude counted in units of `2 ^ -1074`, the
least positive double, so every finite double is an exact integer of units. The
magnitudes that occur are those with a significand of at most 53 bits. NaN is a
single value here: its payload is never shown.
-/

namespace InstrumentBus
namespace Numeric

/-- One is two to this power, in units. -/
@[irreducible] def oneExponent : Nat := 1074

/-- The first magnitude past the largest finite double is two to this power, in units. -/
@[irreducible] def limitExponent : Nat := 2098

def unitsPerOne : Nat := Nat.pow 2 oneExponent

def unitsLimit : Nat := Nat.pow 2 limitExponent

/-- A magnitude is representable when it is finite and has at most 53 significant bits. -/
def Representable (units : Nat) : Prop :=
  units < unitsLimit ∧ ∃ significand exponent, significand < 0x20000000000000 ∧
    units = significand * Nat.pow 2 exponent

structure Magnitude where
  units : Nat
  representable : Representable units
  deriving DecidableEq

inductive Binary64 where
  | nan
  | infinite (negative : Bool)
  | finite (negative : Bool) (magnitude : Magnitude)
  deriving DecidableEq

theorem unitsPerOne_pos : 0 < unitsPerOne := Nat.two_pow_pos _

theorem unitsLimit_pos : 0 < unitsLimit := Nat.two_pow_pos _

theorem representable_zero : Representable 0 :=
  ⟨unitsLimit_pos, 0, 0, by decide, by simp⟩

namespace Binary64

def zero (negative : Bool) : Binary64 := .finite negative ⟨0, representable_zero⟩

def isNaN : Binary64 → Bool
  | .nan => true
  | _ => false

def isFinite : Binary64 → Bool
  | .finite _ _ => true
  | _ => false

def neg : Binary64 → Binary64
  | .nan => .nan
  | .infinite negative => .infinite !negative
  | .finite negative magnitude => .finite (!negative) magnitude

def abs : Binary64 → Binary64
  | .nan => .nan
  | .infinite _ => .infinite false
  | .finite _ magnitude => .finite false magnitude

/-- A count of units with a sign. -/
def signed (negative : Bool) (units : Nat) : Int :=
  if negative then -(units : Int) else units

/-- The place of a number on the line, in units. The infinities stand at the
first places past every finite number; NaN has no place and is put at zero. -/
def place : Binary64 → Int
  | .nan => 0
  | .infinite negative => signed negative unitsLimit
  | .finite negative magnitude => signed negative magnitude.units

@[simp] theorem place_zero (negative : Bool) : (zero negative).place = 0 := by
  cases negative <;> rfl

/-- `x ≤ y`, false as soon as one of them is NaN. -/
def le (x y : Binary64) : Bool :=
  !x.isNaN && !y.isNaN && decide (x.place ≤ y.place)

/-- `x < y`, false as soon as one of them is NaN. -/
def lt (x y : Binary64) : Bool :=
  !x.isNaN && !y.isNaN && decide (x.place < y.place)

theorem le_iff {x y : Binary64} :
    x.le y = true ↔ x.isNaN = false ∧ y.isNaN = false ∧ x.place ≤ y.place := by
  simp [le, and_assoc]

theorem lt_iff {x y : Binary64} :
    x.lt y = true ↔ x.isNaN = false ∧ y.isNaN = false ∧ x.place < y.place := by
  simp [lt, and_assoc]

/-- The larger of two numbers; a NaN gives way to the other. -/
def max (x y : Binary64) : Binary64 :=
  if x.isNaN then y else if y.isNaN then x else if x.lt y then y else x

/-- `x` itself when it lies between the bounds, else the bound it passes. -/
def clamp (x low high : Binary64) : Binary64 :=
  if x.lt low then low else if high.lt x then high else x

end Binary64
end Numeric
end InstrumentBus
