import InstrumentBus.Numeric.Binary64

/-!
# Rounding to the nearest double

One rule rounds every exact quotient: the nearest representable magnitude, an
exact half going to the even significand, and infinity from the first magnitude
past the largest finite one. Arithmetic and reading of decimals are built on it.
-/

namespace InstrumentBus
namespace Numeric

/-- The integer nearest to `n / d`, an exact half going to the even neighbour. -/
def nearestEven (n d : Nat) : Nat :=
  if 2 * (n % d) < d then n / d
  else if d < 2 * (n % d) then n / d + 1
  else n / d + n / d % 2

theorem nearestEven_le (n d : Nat) : nearestEven n d ≤ n / d + 1 := by
  unfold nearestEven
  split
  · omega
  · split <;> omega

theorem le_nearestEven (n d : Nat) : n / d ≤ nearestEven n d := by
  unfold nearestEven
  split
  · omega
  · split <;> omega

theorem nearestEven_mul (k d : Nat) (hd : 0 < d) : nearestEven (k * d) d = k := by
  simp [nearestEven, Nat.mul_div_cancel k hd, hd]

/-- The rounding is off by at most half a step. -/
theorem nearestEven_close (n d : Nat) (hd : 0 < d) :
    2 * n ≤ 2 * (nearestEven n d * d) + d ∧ 2 * (nearestEven n d * d) ≤ 2 * n + d := by
  have hn := Nat.div_add_mod n d
  have hr := Nat.mod_lt n hd
  have hc : d * (n / d) = n / d * d := Nat.mul_comm _ _
  unfold nearestEven
  split
  · omega
  · split
    · rw [Nat.add_mul]; omega
    · have he : n / d % 2 = 0 ∨ n / d % 2 = 1 := by omega
      rcases he with he | he
      · rw [he]; simp only [Nat.add_zero]; omega
      · rw [he, Nat.add_mul]; omega

/-- The distance between neighbouring doubles around a magnitude is two to this
power: 53 bits are kept, and the grid never gets finer than one unit. -/
def spacing (units : Nat) : Nat := units.log2 - 52

theorem lt_two_pow_spacing (units : Nat) : units < Nat.pow 2 (53 + spacing units) := by
  have h : units < 2 ^ (units.log2 + 1) := Nat.lt_log2_self
  exact Nat.lt_of_lt_of_le h (Nat.pow_le_pow_right (by decide) (by unfold spacing; omega))

/-- The rounded magnitude of `num / den` units, without a bound above. -/
def roundUnits (num den : Nat) : Nat :=
  nearestEven num (den * Nat.pow 2 (spacing (num / den))) * Nat.pow 2 (spacing (num / den))

theorem roundUnits_significand (num den : Nat) :
    ∃ significand exponent, significand < 0x20000000000000 ∧
      roundUnits num den = significand * Nat.pow 2 exponent := by
  have hq : num / (den * 2 ^ spacing (num / den)) < 2 ^ 53 := by
    rw [← Nat.div_div_eq_div_mul, Nat.div_lt_iff_lt_mul (Nat.two_pow_pos _), ← Nat.pow_add]
    exact lt_two_pow_spacing _
  have hn := nearestEven_le num (den * 2 ^ spacing (num / den))
  have hle : nearestEven num (den * 2 ^ spacing (num / den)) ≤ 2 ^ 53 := Nat.le_trans hn hq
  rcases Nat.lt_or_eq_of_le hle with hlt | heq
  · exact ⟨_, _, hlt, rfl⟩
  · refine ⟨1, 53 + spacing (num / den), by decide, ?_⟩
    rw [roundUnits, Nat.pow_eq, Nat.pow_eq, heq, Nat.one_mul, Nat.pow_add]

theorem roundUnits_representable {num den : Nat} (h : roundUnits num den < unitsLimit) :
    Representable (roundUnits num den) :=
  ⟨h, roundUnits_significand num den⟩

namespace Binary64

/-- The double nearest to `num / den` units, with a given sign. -/
def ofRatio (negative : Bool) (num den : Nat) : Binary64 :=
  if h : roundUnits num den < unitsLimit then
    .finite negative ⟨roundUnits num den, roundUnits_representable h⟩
  else .infinite negative

/-- The double nearest to a signed number of units. A zero takes the given sign. -/
def ofSigned (zeroSign : Bool) (units : Int) : Binary64 :=
  if units = 0 then zero zeroSign else ofRatio (decide (units < 0)) units.natAbs 1

/-- The double nearest to a natural number. -/
def ofNat (n : Nat) : Binary64 := ofRatio false (n * unitsPerOne) 1

/-- The double nearest to an integer. -/
def ofInt (n : Int) : Binary64 := ofRatio (decide (n < 0)) (n.natAbs * unitsPerOne) 1

/-- The double nearest to `digits * 10 ^ exponent`. The two early exits only
spare work: past them every number overflows or rounds to zero. -/
def ofDecimal (negative : Bool) (digits : Nat) (exponent : Int) : Binary64 :=
  if digits = 0 then zero negative
  else if 310 ≤ exponent then .infinite negative
  else if (digits.log2 : Int) + 3 * exponent ≤ -1077 then zero negative
  else
    match exponent with
    | .ofNat e => ofRatio negative (digits * Nat.pow 10 e * unitsPerOne) 1
    | .negSucc e => ofRatio negative (digits * unitsPerOne) (Nat.pow 10 (e + 1))

theorem ofRatio_isNaN (negative : Bool) (num den : Nat) :
    (ofRatio negative num den).isNaN = false := by
  unfold ofRatio
  split <;> rfl

end Binary64
end Numeric
end InstrumentBus
