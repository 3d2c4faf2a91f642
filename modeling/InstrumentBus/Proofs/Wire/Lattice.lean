import InstrumentBus.Numeric.Interchange
import InstrumentBus.Proofs.Wire.Snapping

/-!
# Words and the multiples they stand for

A word is decoded by one rounded product and encoded by one rounded quotient. The two errors
together are far below the tolerance within which a quotient counts as a whole number, so the
word comes back, whatever the resolution, unless the product overflows.
-/

namespace InstrumentBus
namespace Wire

open Numeric Binary64

theorem isResolution_iff {resolution : Binary64} :
    isResolution resolution = true ↔
      ∃ m : Magnitude, 0 < m.units ∧ resolution = .finite false m := by
  unfold isResolution
  rw [Bool.and_eq_true, lt_iff, place_zero]
  constructor
  · rintro ⟨hfinite, -, -, hpos⟩
    cases resolution with
    | nan => cases hfinite
    | infinite s => cases hfinite
    | finite s m =>
      cases s with
      | false => exact ⟨m, Int.natCast_pos.1 hpos, rfl⟩
      | true =>
        have hneg : (0 : Int) < -(m.units : Int) := hpos
        omega
  · rintro ⟨m, hm, rfl⟩
    exact ⟨rfl, rfl, rfl, Int.natCast_pos.2 hm⟩

section Snap

variable {s : Bool} {q : Magnitude} {units k : Nat}

/-- A number of units is off a whole number by at most three parts in `2 ^ 53` of it. -/
structure Near (units k : Nat) : Prop where
  below : 0x20000000000000 * (k * unitsPerOne) ≤
    0x20000000000000 * units + 3 * (k * unitsPerOne)
  above : 0x20000000000000 * units ≤
    0x20000000000000 * (k * unitsPerOne) + 3 * (k * unitsPerOne)

theorem lt_of_word (hk : k ≤ 0x80000000) : k < 0x20000000000000 := by omega

theorem Near.nearestWhole_eq (h : Near units k) (hk : k ≤ 0x80000000) :
    nearestWhole units = k := by
  obtain ⟨hbelow, habove⟩ := h
  have hpos := unitsPerOne_pos
  have hsize : k * unitsPerOne ≤ 0x80000000 * unitsPerOne := Nat.mul_le_mul_right _ hk
  apply Nat.div_eq_of_lt_le
  · have hlow : k * (2 * unitsPerOne) = 2 * (k * unitsPerOne) := Nat.mul_left_comm ..
    omega
  · have hhigh : (k + 1) * (2 * unitsPerOne) = 2 * (k * unitsPerOne) + 2 * unitsPerOne := by
      ring
    omega

theorem Near.settledUnits_eq (h : Near units k) (hk : k ≤ 0x80000000) :
    settledUnits units = k := by
  have hnearest := h.nearestWhole_eq hk
  obtain ⟨hbelow, habove⟩ := h
  have hunit : k * unitsPerOne = k * toleranceUnits * 0x2000000000000 := by
    rw [unitsPerOne_eq, Nat.mul_assoc]
  have hoff : offWhole units ≤ k * toleranceUnits * 1 := by
    unfold offWhole
    rw [hnearest]
    omega
  have hsettles : Settles units := by
    unfold Settles
    rw [hnearest]
    exact Nat.le_trans (roundUnits_le Nat.one_pos (toleranceAt k (lt_of_word hk)).onGrid hoff)
      (Nat.mul_le_mul_right _ (Nat.le_max_left k 1))
  exact (if_pos hsettles).trans hnearest

theorem Near.snap_eq (h : Near q.units k) (hk : k ≤ 0x80000000) :
    snap (.finite s q) = Max.max (-0x80000000) (Min.min 0x7fffffff (signed s k)) := by
  have hsmall : nearestWhole q.units < 0x20000000000000 :=
    h.nearestWhole_eq hk ▸ lt_of_word hk
  rw [snap_finite hsmall, h.settledUnits_eq hk]

end Snap

section RoundTrip

variable {m : Magnitude} {k v q : Nat}

theorem Near.lt_unitsLimit (h : Near q k) (hk : k ≤ 0x80000000) : q < unitsLimit := by
  have habove := h.above
  have hwhole : 0x100000000 * unitsPerOne < unitsLimit :=
    (Magnitude.whole 0x100000000 (by decide)).representable.1
  have hsize : k * unitsPerOne ≤ 0x80000000 * unitsPerOne := Nat.mul_le_mul_right _ hk
  omega

/-- One is so many units that a quotient of about one or more has more than 53 bits. -/
theorem spacing_quotient_pos {resolution : Nat} (hpos : 0 < resolution)
    (h : unitsPerOne * resolution ≤ 2 * (v * unitsPerOne)) :
    0 < spacing (v * unitsPerOne / resolution) := by
  have htolerance : 2 ^ 5 ≤ toleranceUnits := by
    apply Nat.pow_le_pow_right (by decide)
    unfold toleranceExponent
    decide
  have hlarge : 2 ^ 5 * resolution ≤ toleranceUnits * resolution :=
    Nat.mul_le_mul_right _ htolerance
  have hunits : unitsPerOne * resolution = 0x2000000000000 * (toleranceUnits * resolution) := by
    rw [unitsPerOne_eq]
    ring
  apply spacing_pos
  rw [Nat.le_div_iff_mul_le hpos]
  omega

/-- The rounded quotient of a rounded multiple is near the number it is a multiple by. -/
theorem near_of_quotient {resolution : Nat} (hpos : 0 < resolution)
    (hv : v = roundUnits (k * unitsPerOne * resolution) unitsPerOne)
    (hq : q = roundUnits (v * unitsPerOne) resolution) : Near q k := by
  obtain ⟨hproductUp, hproductDown⟩ := roundUnits_close unitsPerOne_pos
    (Or.inl ⟨k * resolution, by ring⟩ : unitsPerOne ∣ k * unitsPerOne * resolution ∨ _)
  rw [← hv] at hproductUp hproductDown
  have hquotient : resolution ∣ v * unitsPerOne ∨
      0 < spacing (v * unitsPerOne / resolution) := by
    rcases Nat.eq_zero_or_pos k with hzero | hk
    · have hnone : v * unitsPerOne = 0 := by
        rw [hzero, Nat.zero_mul, Nat.zero_mul] at hproductUp
        omega
      exact Or.inl (hnone ▸ Nat.dvd_zero resolution)
    · have hone : 1 * unitsPerOne * resolution ≤ k * unitsPerOne * resolution :=
        Nat.mul_le_mul_right _ (Nat.mul_le_mul_right _ hk)
      rw [Nat.one_mul] at hone
      exact Or.inr (spacing_quotient_pos hpos (by omega))
  obtain ⟨hquotientUp, hquotientDown⟩ := roundUnits_close hpos hquotient
  rw [← hq] at hquotientUp hquotientDown
  constructor
  · apply Nat.le_of_mul_le_mul_right _ hpos
    calc
      0x20000000000000 * (k * unitsPerOne) * resolution
        = 0x20000000000000 * (k * unitsPerOne * resolution) := by ring
      _ ≤ 0x20000000000000 * (q * resolution) + 3 * (k * unitsPerOne * resolution) := by omega
      _ = (0x20000000000000 * q + 3 * (k * unitsPerOne)) * resolution := by ring
  · apply Nat.le_of_mul_le_mul_right _ hpos
    calc
      0x20000000000000 * q * resolution = 0x20000000000000 * (q * resolution) := by ring
      _ ≤ 0x20000000000000 * (k * unitsPerOne * resolution) +
          3 * (k * unitsPerOne * resolution) := by omega
      _ = (0x20000000000000 * (k * unitsPerOne) + 3 * (k * unitsPerOne)) * resolution := by ring

theorem latticePoint_eq (m : Magnitude) (raw : UInt32) :
    latticePoint (.finite false m) raw =
      ofRatio (decide (signedValue raw < 0))
        ((signedValue raw).natAbs * unitsPerOne * m.units) unitsPerOne := by
  have hrange := signedValue_mem raw
  have hsmall : (signedValue raw).natAbs < 0x20000000000000 := by omega
  rw [latticePoint, ofInt_eq hsmall]
  simp only [Binary64.mul, Bool.xor_false]
  rfl

/-- The quotient of a multiple and its resolution comes to the integer it is a multiple by, if
the multiple is finite, else to the limit on its side. -/
theorem snap_latticePoint (hm : 0 < m.units) (raw : UInt32) :
    snap ((latticePoint (.finite false m) raw).div (.finite false m)) =
      if (latticePoint (.finite false m) raw).isFinite then signedValue raw
      else if signedValue raw < 0 then -0x80000000 else 0x7fffffff := by
  obtain ⟨hlow, hhigh⟩ := signedValue_mem raw
  have hk : (signedValue raw).natAbs ≤ 0x80000000 := by omega
  rw [latticePoint_eq]
  by_cases hfinite : roundUnits ((signedValue raw).natAbs * unitsPerOne * m.units) unitsPerOne <
      unitsLimit
  · have hnear := near_of_quotient hm (k := (signedValue raw).natAbs) rfl rfl
    rw [if_pos (isFinite_ofRatio.2 hfinite), ofRatio_of_lt hfinite, div_finite hm,
      ofRatio_of_lt (hnear.lt_unitsLimit hk), Bool.xor_false, Near.snap_eq hnear hk,
      signed_natAbs]
    omega
  · rw [if_neg (fun h => hfinite (isFinite_ofRatio.1 h)), ofRatio_of_not_lt hfinite]
    have hdiv : (Binary64.infinite (decide (signedValue raw < 0))).div (.finite false m) =
        .infinite (decide (signedValue raw < 0)) := by
      simp only [Binary64.div, Bool.xor_false]
    rw [hdiv, snap_infinite]
    simp only [decide_eq_true_eq]

theorem ofRaw_eq {resolution : Binary64} (h : isResolution resolution = true) (raw : UInt32) :
    FixedPoint.ofRaw resolution raw = .ok ⟨resolution, latticePoint resolution raw⟩ := by
  rw [FixedPoint.ofRaw, FixedPoint.new, if_pos h]
  rfl

theorem encode_ofRaw {resolution : Binary64} (h : isResolution resolution = true)
    (raw : UInt32) :
    FixedPoint.encode ⟨resolution, latticePoint resolution raw⟩ =
      if (latticePoint resolution raw).isFinite then raw
      else if signedValue raw < 0 then 0x80000000 else 0x7fffffff := by
  obtain ⟨m, hm, rfl⟩ := isResolution_iff.1 h
  rw [FixedPoint.encode, snap_latticePoint hm]
  split
  · exact wordOf_signedValue raw
  · split
    · rfl
    · rfl

theorem isFinite_latticePoint_mono {resolution : Binary64} (h : isResolution resolution = true)
    {a b : UInt32} (hle : (signedValue a).natAbs ≤ (signedValue b).natAbs)
    (hb : (latticePoint resolution b).isFinite = true) :
    (latticePoint resolution a).isFinite = true := by
  obtain ⟨m, hm, rfl⟩ := isResolution_iff.1 h
  rw [latticePoint_eq, isFinite_ofRatio] at hb ⊢
  refine Nat.lt_of_le_of_lt (roundUnits_mono unitsPerOne_pos unitsPerOne_pos ?_) hb
  apply Nat.mul_le_mul_right
  apply Nat.mul_le_mul_right
  exact Nat.mul_le_mul_right _ hle

end RoundTrip

/-- A word that is decoded and encoded again comes back if and only if it stands for a finite
value or is one of the two limits. In a resolution whose least multiple is finite, every word
comes back. -/
theorem lattice_round_trip {resolution : Binary64} (h : isResolution resolution = true) :
    (∀ raw, ∃ f, FixedPoint.ofRaw resolution raw = .ok f ∧
      (f.encode = raw ↔ f.value.isFinite = true ∨ raw = 0x7fffffff ∨ raw = 0x80000000)) ∧
    (∀ f, FixedPoint.new resolution = .ok f → f.minimum.isFinite = true →
      ∀ raw, ∃ g, FixedPoint.ofRaw resolution raw = .ok g ∧ g.encode = raw) := by
  constructor
  · intro raw
    refine ⟨_, ofRaw_eq h raw, ?_⟩
    rw [encode_ofRaw h]
    by_cases hfinite : (latticePoint resolution raw).isFinite = true
    · simp [hfinite]
    · rw [if_neg hfinite]
      constructor
      · intro hword
        apply Or.inr
        split at hword
        · exact Or.inr hword.symm
        · exact Or.inl hword.symm
      · rintro (hvalue | rfl | rfl)
        · exact absurd hvalue hfinite
        · exact if_neg (by decide)
        · exact if_pos (by decide)
  · intro f hf hminimum raw
    obtain ⟨-, rfl⟩ := FixedPoint.new_eq_ok_iff.1 hf
    have hleast : (latticePoint resolution 0x80000000).isFinite = true := hminimum
    have hfinite : (latticePoint resolution raw).isFinite = true := by
      apply isFinite_latticePoint_mono h _ hleast
      have hrange := signedValue_mem raw
      have hlimit : (signedValue 0x80000000).natAbs = 0x80000000 := by decide
      omega
    refine ⟨_, ofRaw_eq h raw, ?_⟩
    rw [encode_ofRaw h, if_pos hfinite]

theorem degreesPerTurnStep_round_trip :
    isResolution degreesPerTurnStep = true ∧
    ∀ raw, ∃ f, FixedPoint.ofRaw degreesPerTurnStep raw = .ok f ∧ f.encode = raw := by
  have h : isResolution degreesPerTurnStep = true := by decide +kernel
  refine ⟨h, (lattice_round_trip h).2 _ (FixedPoint.new_eq_ok_iff.2 ⟨h, rfl⟩) ?_⟩
  decide +kernel

/-- The largest power of two that is a double. -/
def widestStep : Binary64 := ofBits 0x7fe0000000000000

/-- Twice the step overflows, so the word two is not the one that comes back. -/
theorem widestStep_loses_two :
    isResolution widestStep = true ∧
    (FixedPoint.ofRaw widestStep 2).map FixedPoint.encode = .ok 0x7fffffff :=
  ⟨by decide +kernel, by decide +kernel⟩

end Wire
end InstrumentBus
