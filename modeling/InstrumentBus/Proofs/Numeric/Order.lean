import Mathlib.Algebra.Order.Field.Basic
import Mathlib.Data.Rat.Cast.Order
import InstrumentBus.Proofs.Numeric.Rounding

/-!
# The order of doubles

Doubles are ordered by their places. A product with a positive double, and a quotient by one, is
placed by a rule on magnitudes that is mirrored at zero, and a mirrored rule keeps the order as
soon as the rule does. A clamp is the middle one of three places.
-/

namespace InstrumentBus
namespace Numeric
namespace Binary64

section Mirrored

variable {rule : Nat → Nat} {s : Bool} {z w : Int}

theorem natAbs_signed (s : Bool) (units : Nat) : (signed s units).natAbs = units := by
  cases s with
  | false => exact Int.natAbs_natCast units
  | true => exact (Int.natAbs_neg _).trans (Int.natAbs_natCast units)

theorem signed_zero (s : Bool) : signed s 0 = 0 := by
  cases s with
  | false => rfl
  | true => rfl

theorem signed_mul (s : Bool) (a b : Nat) : signed s (a * b) = signed s a * b := by
  cases s with
  | false => exact Int.natCast_mul a b
  | true =>
    simp only [signed, if_true]
    rw [Int.natCast_mul, Int.neg_mul]

/-- A rule on magnitudes, applied on both sides of zero. -/
def mirrored (rule : Nat → Nat) (z : Int) : Int := signed (decide (z < 0)) (rule z.natAbs)

theorem mirrored_signed (hzero : rule 0 = 0) (s : Bool) (units : Nat) :
    mirrored rule (signed s units) = signed s (rule units) := by
  rw [mirrored, natAbs_signed]
  rcases Nat.eq_zero_or_pos units with rfl | hpos
  · rw [hzero, signed_zero, signed_zero]
  · have hsign : decide (signed s units < 0) = s := by
      cases s with
      | false => simp [signed]
      | true => simpa [signed] using hpos
    rw [hsign]

theorem mirrored_mono (hrule : ∀ a b, a ≤ b → rule a ≤ rule b) (h : z ≤ w) :
    mirrored rule z ≤ mirrored rule w := by
  unfold mirrored
  by_cases hz : z < 0
  · by_cases hw : w < 0
    · have hmag := hrule w.natAbs z.natAbs (by omega)
      simp only [hz, hw, decide_true, signed, if_true]
      omega
    · simp only [hz, hw, decide_true, decide_false, signed, if_true, Bool.false_eq_true, if_false]
      omega
  · have hw : ¬ w < 0 := by omega
    have hmag := hrule z.natAbs w.natAbs (by omega)
    simp only [hz, hw, decide_false, signed, Bool.false_eq_true, if_false]
    omega

end Mirrored

section Places

variable {x y low high : Binary64} {m : Magnitude}

/-- The rounded magnitude of `num / den` units, where whatever overflows stands at the limit. -/
def limitedUnits (den num : Nat) : Nat := Min.min (roundUnits num den) unitsLimit

theorem limitedUnits_zero (den : Nat) : limitedUnits den 0 = 0 := by
  have hround : roundUnits 0 den = 0 := by
    simp [roundUnits, nearestEven]
  rw [limitedUnits, hround]
  exact Nat.zero_min _

theorem limitedUnits_mono {den : Nat} (hd : 0 < den) (a b : Nat) (h : a ≤ b) :
    limitedUnits den a ≤ limitedUnits den b := by
  have hround := roundUnits_mono hd hd (Nat.mul_le_mul_right den h)
  unfold limitedUnits
  exact Nat.le_min.2 ⟨Nat.le_trans (Nat.min_le_left _ _) hround, Nat.min_le_right _ _⟩

theorem place_ofRatio (s : Bool) (num den : Nat) :
    (ofRatio s num den).place = signed s (limitedUnits den num) := by
  by_cases h : roundUnits num den < unitsLimit
  · rw [ofRatio_of_lt h, limitedUnits, place, Nat.min_eq_left (Nat.le_of_lt h)]
  · rw [ofRatio_of_not_lt h, limitedUnits, place, Nat.min_eq_right (Nat.le_of_not_lt h)]

theorem exists_finite (h : x.isFinite = true) : ∃ s a, x = .finite s a := by
  cases x with
  | finite s a => exact ⟨s, a, rfl⟩
  | _ => cases h

theorem place_mul (hx : x.isFinite = true) :
    (x.mul (.finite false m)).place = mirrored (limitedUnits unitsPerOne) (x.place * m.units) := by
  obtain ⟨s, a, rfl⟩ := exists_finite hx
  have hproduct : (Binary64.finite s a).mul (.finite false m) =
      ofRatio s (a.units * m.units) unitsPerOne := by
    simp only [Binary64.mul, Bool.xor_false]
  rw [hproduct, place_ofRatio, place, ← signed_mul, mirrored_signed (limitedUnits_zero _)]

theorem isNaN_div (hm : 0 < m.units) (hx : x.isNaN = false) :
    (x.div (.finite false m)).isNaN = false := by
  cases x with
  | nan => cases hx
  | infinite s => rfl
  | finite s a =>
    rw [div_finite hm]
    exact ofRatio_isNaN _ _ _

theorem isFinite_of_le (hlow : low.isFinite = true) (hhigh : high.isFinite = true)
    (hl : low.le x = true) (hh : x.le high = true) : x.isFinite = true := by
  obtain ⟨-, hx, habove⟩ := le_iff.1 hl
  obtain ⟨-, -, hbelow⟩ := le_iff.1 hh
  obtain ⟨s, a, rfl⟩ := exists_finite hlow
  obtain ⟨t, b, rfl⟩ := exists_finite hhigh
  have ha := natAbs_signed s a.units
  have hb := natAbs_signed t b.units
  have halimit := a.representable.1
  have hblimit := b.representable.1
  cases x with
  | nan => cases hx
  | finite u c => rfl
  | infinite u =>
    cases u with
    | false =>
      simp only [place, signed, Bool.false_eq_true, if_false] at hbelow hb
      omega
    | true =>
      simp only [place, signed, if_true] at habove ha
      omega

theorem not_lt_of_le (h : x.le y = true) : y.lt x = false := by
  obtain ⟨-, -, hplace⟩ := le_iff.1 h
  rw [← Bool.not_eq_true, lt_iff]
  rintro ⟨-, -, hlt⟩
  omega

theorem lt_or_le (hx : x.isNaN = false) (hy : y.isNaN = false) :
    x.lt y = true ∨ y.le x = true := by
  by_cases h : x.place < y.place
  · exact Or.inl (lt_iff.2 ⟨hx, hy, h⟩)
  · exact Or.inr (le_iff.2 ⟨hy, hx, Int.not_lt.1 h⟩)

theorem clamp_of_mem (hl : low.le x = true) (hh : x.le high = true) : x.clamp low high = x := by
  simp [clamp, not_lt_of_le hl, not_lt_of_le hh]

theorem clamp_of_lt (h : x.lt low = true) : x.clamp low high = low := if_pos h

theorem clamp_of_gt (hbounds : low.le high = true) (h : high.lt x = true) :
    x.clamp low high = high := by
  obtain ⟨hhigh, hx, hlt⟩ := lt_iff.1 h
  obtain ⟨hlow, -, hle⟩ := le_iff.1 hbounds
  have habove : low.le x = true := le_iff.2 ⟨hlow, hx, by omega⟩
  simp [clamp, not_lt_of_le habove, h]

/-- A clamped number is a number, and its place is the middle one of the three. -/
theorem clamp_spec (hbounds : low.le high = true) (hx : x.isNaN = false) :
    (x.clamp low high).isNaN = false ∧
      (x.clamp low high).place = Max.max low.place (Min.min x.place high.place) := by
  obtain ⟨hlow, hhigh, hle⟩ := le_iff.1 hbounds
  rcases lt_or_le hx hlow with hbelow | habove
  · have hplace := (lt_iff.1 hbelow).2.2
    rw [clamp_of_lt hbelow]
    exact ⟨hlow, by omega⟩
  · have hplace := (le_iff.1 habove).2.2
    rcases lt_or_le hhigh hx with hpast | hwithin
    · have hplace' := (lt_iff.1 hpast).2.2
      rw [clamp_of_gt hbounds hpast]
      exact ⟨hhigh, by omega⟩
    · have hplace' := (le_iff.1 hwithin).2.2
      rw [clamp_of_mem habove hwithin]
      exact ⟨hx, by omega⟩

def toRat (x : Binary64) : ℚ := (x.place : ℚ) / (unitsPerOne : ℚ)

theorem abs_toRat_sub_lt (h : (x.place - y.place).natAbs < m.units) :
    |x.toRat - y.toRat| < (Binary64.finite false m).toRat := by
  have hscale : (0 : ℚ) < (unitsPerOne : ℚ) := Nat.cast_pos.2 unitsPerOne_pos
  have hunits : |((x.place - y.place : Int) : ℚ)| < ((m.units : Int) : ℚ) := by
    rw [← Int.cast_abs, Int.abs_eq_natAbs]
    exact Int.cast_lt.2 (Int.ofNat_lt.2 h)
  have hplace : (Binary64.finite false m).place = (m.units : Int) := rfl
  unfold toRat
  rw [hplace, ← sub_div, abs_div, abs_of_pos hscale, ← Int.cast_sub]
  exact div_lt_div_of_pos_right hunits hscale

end Places

end Binary64
end Numeric
end InstrumentBus
