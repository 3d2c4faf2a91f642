import InstrumentBus.Wire.FixedPoint
import InstrumentBus.Proofs.Numeric.Order

/-!
# The whole number a quotient settles on

A quotient settles on the nearest integer if it is within the tolerance around it, else on the
next one toward zero. For magnitudes below `2 ^ 53` the nearest integer and the tolerance are
exact, so that only the distance between the two is rounded. The number settled on grows with the
quotient, since of two quotients with one nearest integer the one closer to it is within the
tolerance if the other is.
-/

namespace InstrumentBus
namespace Wire

open Numeric Binary64

/-- The number that is converted to the integer of a word. -/
def settled (quotient : Binary64) : Binary64 :=
  if (quotient.sub quotient.round).abs.le
      (snapTolerance.mul (quotient.round.abs.max (Binary64.ofNat 1))) then quotient.round
  else quotient.truncate

theorem snap_eq (quotient : Binary64) :
    snap quotient = (settled quotient).toIntClamped (-0x80000000) 0x7fffffff := rfl

theorem isNaN_settled {quotient : Binary64} (h : quotient.isNaN = false) :
    (settled quotient).isNaN = false := by
  unfold settled
  cases quotient with
  | nan => cases h
  | infinite s => split <;> rfl
  | finite s q =>
    split
    · exact ofRatio_isNaN _ _ _
    · exact ofRatio_isNaN _ _ _

section Tolerance

variable {k : Nat}

/-- The tolerance around one is two to this power, in units. -/
@[irreducible] def toleranceExponent : Nat := 1025

def toleranceUnits : Nat := Nat.pow 2 toleranceExponent

theorem unitsPerOne_eq : unitsPerOne = toleranceUnits * 0x2000000000000 := by
  have hexponent : oneExponent = toleranceExponent + 49 := by
    unfold oneExponent toleranceExponent
    rfl
  rw [unitsPerOne, hexponent]
  exact Nat.pow_add 2 toleranceExponent 49

def toleranceAt (k : Nat) (h : k < 0x20000000000000) : Magnitude :=
  ⟨k * toleranceUnits, by
    refine ⟨Nat.lt_of_le_of_lt ?_ (Magnitude.whole k h).representable.1, k,
      toleranceExponent, h, rfl⟩
    apply Nat.mul_le_mul_left
    rw [unitsPerOne_eq]
    exact Nat.le_mul_of_pos_right _ (by decide)⟩

theorem snapTolerance_eq : snapTolerance = .finite false (toleranceAt 1 (by decide)) := by
  apply ofRatio_eq_finite
  have hgrid : OnGrid toleranceUnits := onGrid_pow toleranceExponent
  rw [unitsPerOne_eq, roundUnits_mul (by decide) hgrid]
  exact (Nat.one_mul _).symm

theorem tolerance_mul {h : k < 0x20000000000000} :
    snapTolerance.mul (.finite false (Magnitude.whole k h)) =
      .finite false (toleranceAt k h) := by
  rw [snapTolerance_eq]
  apply ofRatio_eq_finite
  have hproduct : (toleranceAt 1 (by decide)).units * (Magnitude.whole k h).units =
      (toleranceAt k h).units * unitsPerOne := by
    simp only [toleranceAt, Magnitude.whole]
    ring
  rw [hproduct]
  exact roundUnits_mul unitsPerOne_pos (Magnitude.onGrid (toleranceAt k h))

theorem larger_lt (h : k < 0x20000000000000) : Max.max k 1 < 0x20000000000000 := by omega

theorem whole_lt_iff {j : Nat} {hj : j < 0x20000000000000} {hk : k < 0x20000000000000} :
    (Binary64.finite false (Magnitude.whole j hj)).lt (.finite false (Magnitude.whole k hk)) =
      true ↔ j < k := by
  rw [lt_iff]
  constructor
  · rintro ⟨-, -, hplace⟩
    have hunits : j * unitsPerOne < k * unitsPerOne := Int.ofNat_lt.1 hplace
    exact Nat.lt_of_mul_lt_mul_right hunits
  · intro hlt
    have hunits : j * unitsPerOne < k * unitsPerOne := Nat.mul_lt_mul_of_pos_right hlt unitsPerOne_pos
    exact ⟨rfl, rfl, Int.ofNat_lt.2 hunits⟩

theorem max_one {h : k < 0x20000000000000} :
    (Binary64.finite false (Magnitude.whole k h)).max (ofNat 1) =
      .finite false (Magnitude.whole (Max.max k 1) (larger_lt h)) := by
  have hone : ofNat 1 = .finite false (Magnitude.whole 1 (by decide)) := ofNat_eq (by decide)
  simp only [hone, Binary64.max, isNaN, Bool.false_eq_true, if_false]
  by_cases hk : k < 1
  · have hmax : Max.max k 1 = 1 := by omega
    rw [if_pos (whole_lt_iff.2 hk)]
    simp only [hmax]
  · have hmax : Max.max k 1 = k := by omega
    rw [if_neg (mt whole_lt_iff.1 hk)]
    simp only [hmax]

end Tolerance

section Settling

variable {s : Bool} {q : Magnitude} {a b : Nat}

/-- The integer nearest to a number of units, a half going up. -/
def nearestWhole (units : Nat) : Nat := (2 * units + unitsPerOne) / (2 * unitsPerOne)

def offWhole (units : Nat) : Nat :=
  (units - nearestWhole units * unitsPerOne) + (nearestWhole units * unitsPerOne - units)

def Settles (units : Nat) : Prop :=
  roundUnits (offWhole units) 1 ≤ Max.max (nearestWhole units) 1 * toleranceUnits

instance (units : Nat) : Decidable (Settles units) := inferInstanceAs (Decidable (_ ≤ _))

def settledUnits (units : Nat) : Nat :=
  if Settles units then nearestWhole units else units / unitsPerOne

theorem nearestWhole_spec (units : Nat) :
    2 * (nearestWhole units * unitsPerOne) ≤ 2 * units + unitsPerOne ∧
      2 * units < 2 * (nearestWhole units * unitsPerOne) + unitsPerOne := by
  have hpos := unitsPerOne_pos
  have hlow := Nat.div_mul_le_self (2 * units + unitsPerOne) (2 * unitsPerOne)
  have hhigh := Nat.lt_div_mul_add (a := 2 * units + unitsPerOne) (b := 2 * unitsPerOne) (by omega)
  have hassoc : nearestWhole units * (2 * unitsPerOne) =
      2 * (nearestWhole units * unitsPerOne) := Nat.mul_left_comm ..
  rw [← nearestWhole, hassoc] at hlow hhigh
  omega

theorem nearestWhole_mono (h : a ≤ b) : nearestWhole a ≤ nearestWhole b :=
  Nat.div_le_div_right (by omega)

theorem nearestWhole_le (units : Nat) :
    units / unitsPerOne ≤ nearestWhole units ∧ nearestWhole units ≤ units / unitsPerOne + 1 := by
  have hpos := unitsPerOne_pos
  obtain ⟨hlow, hhigh⟩ := nearestWhole_spec units
  have hpart := Nat.div_mul_le_self units unitsPerOne
  have hrest := Nat.lt_div_mul_add (a := units) hpos
  constructor
  · apply Nat.le_of_lt_succ
    apply Nat.lt_of_mul_lt_mul_right (a := unitsPerOne)
    rw [Nat.succ_mul]
    omega
  · apply Nat.le_of_lt_succ
    apply Nat.lt_of_mul_lt_mul_right (a := unitsPerOne)
    rw [Nat.succ_mul, Nat.succ_mul]
    omega

theorem settledUnits_cases (units : Nat) :
    settledUnits units = nearestWhole units ∨
      ¬ Settles units ∧ settledUnits units + 1 = nearestWhole units := by
  unfold settledUnits
  obtain ⟨hlow, hhigh⟩ := nearestWhole_le units
  split
  · exact Or.inl rfl
  · next hnot =>
    rcases Nat.lt_or_eq_of_le hlow with hlt | heq
    · exact Or.inr ⟨hnot, by omega⟩
    · exact Or.inl heq

theorem settledUnits_mono (a b : Nat) (h : a ≤ b) : settledUnits a ≤ settledUnits b := by
  have hnearest := nearestWhole_mono h
  rcases settledUnits_cases b with hb | ⟨hfar, hb⟩
  · rcases settledUnits_cases a with ha | ⟨-, ha⟩
    · omega
    · omega
  · rcases settledUnits_cases a with ha | ⟨-, ha⟩
    · rcases Nat.lt_or_eq_of_le hnearest with hlt | heq
      · omega
      -- With one nearest integer above both, the smaller quotient is farther from it.
      · exfalso
        have hpart : settledUnits b = b / unitsPerOne := if_neg hfar
        have hrest := Nat.lt_div_mul_add (a := b) unitsPerOne_pos
        have hunder : b < nearestWhole b * unitsPerOne := by
          rw [← hb, hpart, Nat.succ_mul]
          exact hrest
        have hoff : offWhole b ≤ offWhole a := by
          unfold offWhole
          rw [heq]
          omega
        have hround := roundUnits_mono (Nat.one_pos) (Nat.one_pos) (Nat.mul_le_mul_right 1 hoff)
        have hnear : Settles a := by
          by_contra hnot
          have hpart : settledUnits a = a / unitsPerOne := if_neg hnot
          have hless : a / unitsPerOne ≤ b / unitsPerOne := Nat.div_le_div_right h
          omega
        apply hfar
        unfold Settles at hnear ⊢
        rw [heq] at hnear
        exact Nat.le_trans hround hnear
    · omega

theorem settledUnits_lt (h : nearestWhole q.units < 0x20000000000000) :
    settledUnits q.units < 0x20000000000000 := by
  rcases settledUnits_cases q.units with heq | ⟨-, heq⟩
  · omega
  · omega

theorem round_eq (h : nearestWhole q.units < 0x20000000000000) :
    (Binary64.finite s q).round = .finite s (Magnitude.whole (nearestWhole q.units) h) :=
  ofRatio_eq_finite (roundUnits_whole h)

theorem truncate_eq (h : q.units / unitsPerOne < 0x20000000000000) :
    (Binary64.finite s q).truncate = .finite s (Magnitude.whole (q.units / unitsPerOne) h) :=
  ofRatio_eq_finite (roundUnits_whole h)

theorem within_iff (h : nearestWhole q.units < 0x20000000000000) :
    ((Binary64.finite s q).sub (Binary64.finite s q).round).abs.le
      (snapTolerance.mul ((Binary64.finite s q).round.abs.max (ofNat 1))) = true ↔
      Settles q.units := by
  rw [round_eq h, Binary64.abs, max_one, tolerance_mul, Binary64.sub, Binary64.neg, Binary64.add,
    abs_ofSigned_le_iff]
  have hoff : (signed s q.units +
      signed (!s) (Magnitude.whole (nearestWhole q.units) h).units).natAbs = offWhole q.units := by
    unfold offWhole Magnitude.whole
    cases s with
    | false =>
      simp only [signed, Bool.not_false, Bool.false_eq_true, if_false, if_true]
      omega
    | true =>
      simp only [signed, Bool.not_true, Bool.false_eq_true, if_false, if_true]
      omega
  rw [hoff]
  exact Iff.rfl

theorem whole_congr {j k : Nat} {hj : j < 0x20000000000000} {hk : k < 0x20000000000000}
    (h : j = k) : Magnitude.whole j hj = Magnitude.whole k hk := by
  subst h
  rfl

theorem settled_finite (h : nearestWhole q.units < 0x20000000000000) :
    settled (.finite s q) =
      .finite s (Magnitude.whole (settledUnits q.units) (settledUnits_lt h)) := by
  by_cases hnear : Settles q.units
  · have hwhole : settledUnits q.units = nearestWhole q.units := if_pos hnear
    have htaken : settled (.finite s q) = (Binary64.finite s q).round :=
      if_pos ((within_iff h).2 hnear)
    rw [htaken, round_eq h]
    exact congrArg (Binary64.finite s) (whole_congr hwhole.symm)
  · have hwhole : settledUnits q.units = q.units / unitsPerOne := if_neg hnear
    have hpart : q.units / unitsPerOne < 0x20000000000000 :=
      Nat.lt_of_le_of_lt (nearestWhole_le q.units).1 h
    have htaken : settled (.finite s q) = (Binary64.finite s q).truncate :=
      if_neg (mt (within_iff h).1 hnear)
    rw [htaken, truncate_eq hpart]
    exact congrArg (Binary64.finite s) (whole_congr hwhole.symm)

/-- A finite quotient is encoded as the integer its magnitude settles on, with its sign, held
between the limits. -/
theorem snap_finite (h : nearestWhole q.units < 0x20000000000000) :
    snap (.finite s q) =
      Max.max (-0x80000000) (Min.min 0x7fffffff (signed s (settledUnits q.units))) := by
  rw [snap_eq, settled_finite h, toIntClamped, Magnitude.whole,
    Nat.mul_div_cancel _ unitsPerOne_pos]

theorem snap_infinite (s : Bool) :
    snap (.infinite s) = if s then -0x80000000 else 0x7fffffff := by
  cases s with
  | false => decide +kernel
  | true => decide +kernel

end Settling

end Wire
end InstrumentBus
