import InstrumentBus.Numeric.Rounding

/-!
# Bit patterns of doubles

A pattern is a sign bit, eleven exponent bits and fifty-two fraction bits.
-/

namespace InstrumentBus
namespace Numeric

def fractionModulus : Nat := 0x10000000000000

def exponentModulus : Nat := 0x800

theorem representable_of_fields {significand exponent : Nat}
    (hs : significand < 0x20000000000000) (he : exponent ≤ 2045) :
    Representable (significand * Nat.pow 2 exponent) := by
  refine ⟨?_, significand, exponent, hs, rfl⟩
  have h1 : significand * 2 ^ exponent < 2 ^ 53 * 2 ^ exponent :=
    Nat.mul_lt_mul_of_pos_right hs (Nat.two_pow_pos _)
  rw [← Nat.pow_add] at h1
  refine Nat.lt_of_lt_of_le h1 ?_
  exact Nat.pow_le_pow_right (by decide) (by unfold limitExponent; omega)

namespace Binary64

/-- The double with a given pattern. -/
def ofBits (bits : UInt64) : Binary64 :=
  let fraction := bits.toNat % fractionModulus
  let exponent := bits.toNat / fractionModulus % exponentModulus
  let negative := decide (fractionModulus * exponentModulus ≤ bits.toNat)
  have hf : fraction < 0x10000000000000 := Nat.mod_lt _ (by decide)
  have he : exponent < 0x800 := Nat.mod_lt _ (by decide)
  if hn : exponent = 2047 then
    if fraction = 0 then .infinite negative else .nan
  else if exponent = 0 then
    .finite negative ⟨fraction * Nat.pow 2 0, representable_of_fields (by omega) (by omega)⟩
  else
    .finite negative ⟨(fractionModulus + fraction) * Nat.pow 2 (exponent - 1),
      representable_of_fields (by simp only [fractionModulus]; omega) (by omega)⟩

/-- The exponent and fraction bits of a finite magnitude. -/
def magnitudeBits (units : Nat) : Nat :=
  if units < fractionModulus then units
  else
    (spacing units + 1) * fractionModulus + (units / Nat.pow 2 (spacing units) - fractionModulus)

/-- The pattern of a number; NaN takes the quiet positive one. -/
def toBits : Binary64 → UInt64
  | .nan => 0x7ff8000000000000
  | .infinite negative => if negative then 0xfff0000000000000 else 0x7ff0000000000000
  | .finite negative m =>
    UInt64.ofNat ((if negative then fractionModulus * exponentModulus else 0)
      + magnitudeBits m.units)

end Binary64
end Numeric
end InstrumentBus
