import InstrumentBus.Proofs.Wire.Range

/-!
# What a word loses of a value

The word of a value in range is found by one rule on magnitudes, the rounded quotient and the
integer it settles on, and the rule keeps their order. The multiple it stands for is less than one
resolution away: a quotient goes up to the next integer only within the tolerance, and goes down
to the one before only from outside of it, which leaves more room than the two roundings take.
-/

namespace InstrumentBus
namespace Wire

open Numeric Binary64

section Magnitudes

variable {resolution a b units : Nat}

def encodedUnits (resolution units : Nat) : Nat :=
  settledUnits (roundUnits (units * unitsPerOne) resolution)

/-- The magnitude of a multiple of a resolution. -/
def multipleUnits (resolution k : Nat) : Nat :=
  roundUnits (k * unitsPerOne * resolution) unitsPerOne

theorem encodedUnits_mono (hr : 0 < resolution) (a b : Nat) (h : a ≤ b) :
    encodedUnits resolution a ≤ encodedUnits resolution b := by
  apply settledUnits_mono
  apply roundUnits_mono hr hr
  exact Nat.mul_le_mul_right _ (Nat.mul_le_mul_right _ h)

theorem encodedUnits_multipleUnits {k : Nat} (hr : 0 < resolution) (hk : k ≤ 0x80000000) :
    encodedUnits resolution (multipleUnits resolution k) = k :=
  (near_of_quotient hr rfl rfl).settledUnits_eq hk

theorem multipleUnits_zero (resolution : Nat) : multipleUnits resolution 0 = 0 := by
  rw [multipleUnits, Nat.zero_mul, Nat.zero_mul]
  exact Nat.eq_zero_of_le_zero (roundUnits_le unitsPerOne_pos (onGrid_of_lt (by decide))
    (Nat.zero_le _))

theorem multipleUnits_one (hg : OnGrid resolution) : multipleUnits resolution 1 = resolution := by
  rw [multipleUnits, Nat.one_mul, Nat.mul_comm]
  exact roundUnits_mul unitsPerOne_pos hg

theorem multipleUnits_mono {j k : Nat} (h : j ≤ k) :
    multipleUnits resolution j ≤ multipleUnits resolution k := by
  apply roundUnits_mono unitsPerOne_pos unitsPerOne_pos
  apply Nat.mul_le_mul_right
  apply Nat.mul_le_mul_right
  exact Nat.mul_le_mul_right _ h

theorem multipleUnits_limit (hg : OnGrid resolution) :
    multipleUnits resolution 0x80000000 = 0x80000000 * resolution := by
  have hproduct : 0x80000000 * unitsPerOne * resolution =
      0x80000000 * resolution * unitsPerOne := by ring
  rw [multipleUnits, hproduct]
  exact roundUnits_mul unitsPerOne_pos (hg.mul_pow 31)

theorem encodedUnits_le (hr : 0 < resolution) (hg : OnGrid resolution)
    (h : units ≤ 0x80000000 * resolution) : encodedUnits resolution units ≤ 0x80000000 := by
  rw [← multipleUnits_limit hg] at h
  have hmono := encodedUnits_mono hr _ _ h
  rwa [encodedUnits_multipleUnits hr (Nat.le_refl _)] at hmono

theorem encodedUnits_zero (hr : 0 < resolution) : encodedUnits resolution 0 = 0 := by
  have hzero := encodedUnits_multipleUnits hr (Nat.zero_le 0x80000000)
  rwa [multipleUnits_zero] at hzero

theorem encodedUnits_resolution (hr : 0 < resolution) (hg : OnGrid resolution) :
    encodedUnits resolution resolution = 1 := by
  have hone := encodedUnits_multipleUnits hr (by decide : 1 ≤ 0x80000000)
  rwa [multipleUnits_one hg] at hone

theorem multiple_close_of_le (hr : 0 < resolution) (hg : OnGrid resolution)
    (h : units ≤ resolution) :
    multipleUnits resolution (encodedUnits resolution units) < units + resolution ∧
      units < multipleUnits resolution (encodedUnits resolution units) + resolution := by
  have hone := encodedUnits_mono hr units resolution h
  rw [encodedUnits_resolution hr hg] at hone
  rcases Nat.le_one_iff_eq_zero_or_eq_one.1 hone with hnone | hfull
  · have hless : units ≠ resolution := by
      rintro rfl
      rw [encodedUnits_resolution hr hg] at hnone
      cases hnone
    rw [hnone, multipleUnits_zero]
    omega
  · have hmore : units ≠ 0 := by
      rintro rfl
      rw [encodedUnits_zero hr] at hfull
      cases hfull
    rw [hfull, multipleUnits_one hg]
    omega

/-- A quotient that settles on the integer below the nearest one is below the nearest one by more
than the tolerance. -/
theorem gap_of_not_settles {q : Nat} (hfar : ¬ Settles q)
    (hnext : settledUnits q + 1 = nearestWhole q) (hsmall : nearestWhole q < 0x20000000000000) :
    settledUnits q * unitsPerOne ≤ q ∧
      0x2000000000000 * q + (settledUnits q * unitsPerOne + unitsPerOne) ≤
        0x2000000000000 * (settledUnits q * unitsPerOne + unitsPerOne) := by
  have hpart : settledUnits q = q / unitsPerOne := if_neg hfar
  have hbelow : settledUnits q * unitsPerOne ≤ q := by
    rw [hpart]
    exact Nat.div_mul_le_self _ _
  have habove : q < settledUnits q * unitsPerOne + unitsPerOne := by
    rw [hpart]
    exact Nat.lt_div_mul_add unitsPerOne_pos
  have hwhole : nearestWhole q * unitsPerOne = settledUnits q * unitsPerOne + unitsPerOne := by
    rw [← hnext, Nat.succ_mul]
  have hlarger : Max.max (nearestWhole q) 1 = nearestWhole q := by omega
  have htolerance : nearestWhole q * toleranceUnits < offWhole q := by
    by_contra hnot
    apply hfar
    unfold Settles
    rw [hlarger]
    apply roundUnits_le Nat.one_pos (toleranceAt _ hsmall).onGrid
    rw [Nat.mul_one]
    exact Nat.not_lt.1 hnot
  have hscale : nearestWhole q * unitsPerOne =
      nearestWhole q * toleranceUnits * 0x2000000000000 := by
    rw [unitsPerOne_eq, Nat.mul_assoc]
  unfold offWhole at htolerance
  omega

/-- A quotient settles on an integer at most half of one away, or on one below it by less than
one, with the tolerance to spare. Both sides are multiplied by the denominator. -/
theorem settled_close {q : Nat} (hsmall : settledUnits q ≤ 0x80000000) (resolution : Nat) :
    (2 * (settledUnits q * unitsPerOne * resolution) ≤
        2 * (q * resolution) + unitsPerOne * resolution ∧
      2 * (q * resolution) ≤
        2 * (settledUnits q * unitsPerOne * resolution) + unitsPerOne * resolution) ∨
    (settledUnits q * unitsPerOne * resolution ≤ q * resolution ∧
      0x2000000000000 * (q * resolution) +
          (settledUnits q * unitsPerOne * resolution + unitsPerOne * resolution) ≤
        0x2000000000000 *
          (settledUnits q * unitsPerOne * resolution + unitsPerOne * resolution)) := by
  rcases settledUnits_cases q with hnearest | ⟨hfar, hnext⟩
  · left
    obtain ⟨hlow, hhigh⟩ := nearestWhole_spec q
    rw [← hnearest] at hlow hhigh
    have hlow' := Nat.mul_le_mul_right resolution hlow
    have hhigh' := Nat.mul_le_mul_right resolution (Nat.le_of_lt hhigh)
    rw [Nat.add_mul, Nat.mul_assoc 2, Nat.mul_assoc 2] at hlow' hhigh'
    exact ⟨hlow', hhigh'⟩
  · right
    obtain ⟨hbelow, hgap⟩ := gap_of_not_settles hfar hnext (by omega)
    have hgap' := Nat.mul_le_mul_right resolution hgap
    rw [Nat.add_mul, Nat.mul_assoc, Nat.mul_assoc, Nat.add_mul] at hgap'
    exact ⟨Nat.mul_le_mul_right resolution hbelow, hgap'⟩

/-- A number `a` is rounded to `b`, which settles on `c`, which is rounded to `e`: what is lost on
the way is less than one step. -/
theorem lt_step_of_settled {step a b c e : Nat} (hstep : 0 < step)
    (ha : a ≤ 0x80000000 * step)
    (hab : 0x20000000000000 * b ≤ 0x20000000000000 * a + a ∧
      0x20000000000000 * a ≤ 0x20000000000000 * b + a)
    (hce : 0x20000000000000 * e ≤ 0x20000000000000 * c + c ∧
      0x20000000000000 * c ≤ 0x20000000000000 * e + c)
    (hbc : (2 * c ≤ 2 * b + step ∧ 2 * b ≤ 2 * c + step) ∨
      (c ≤ b ∧ 0x2000000000000 * b + (c + step) ≤ 0x2000000000000 * (c + step))) :
    e < a + step ∧ a < e + step := by
  rcases hbc with hhalf | hgap
  · omega
  · omega

/-- Beyond one resolution, the quotient has so many bits that the two roundings are off by far
less than what the tolerance leaves. -/
theorem multiple_close_of_lt (hr : 0 < resolution) (hg : OnGrid resolution)
    (hmin : resolution < units) (hmax : units ≤ 0x80000000 * resolution) :
    multipleUnits resolution (encodedUnits resolution units) < units + resolution ∧
      units < multipleUnits resolution (encodedUnits resolution units) + resolution := by
  have hencoded : encodedUnits resolution units ≤ 0x80000000 := encodedUnits_le hr hg hmax
  have hcoarse : 0 < spacing (units * unitsPerOne / resolution) := by
    apply spacing_quotient_pos hr
    have hless := Nat.mul_le_mul_right unitsPerOne (Nat.le_of_lt hmin)
    rw [Nat.mul_comm unitsPerOne]
    omega
  have hvalue : units * unitsPerOne ≤ 0x80000000 * (unitsPerOne * resolution) := by
    calc
      units * unitsPerOne ≤ 0x80000000 * resolution * unitsPerOne := Nat.mul_le_mul_right _ hmax
      _ = 0x80000000 * (unitsPerOne * resolution) := by ring
  have hproduct := roundUnits_close unitsPerOne_pos
    (Or.inl ⟨encodedUnits resolution units * resolution, by ring⟩ :
      unitsPerOne ∣ encodedUnits resolution units * unitsPerOne * resolution ∨ _)
  obtain ⟨habove, hbelow⟩ := lt_step_of_settled (Nat.mul_pos unitsPerOne_pos hr) hvalue
    (roundUnits_close hr (Or.inr hcoarse)) hproduct (settled_close hencoded resolution)
  rw [Nat.mul_comm unitsPerOne resolution, ← Nat.add_mul] at habove hbelow
  exact ⟨Nat.lt_of_mul_lt_mul_right habove, Nat.lt_of_mul_lt_mul_right hbelow⟩

/-- The multiple that a magnitude is encoded as is less than one resolution away from it. -/
theorem multiple_close (hr : 0 < resolution) (hg : OnGrid resolution)
    (hmax : units ≤ 0x80000000 * resolution) :
    multipleUnits resolution (encodedUnits resolution units) < units + resolution ∧
      units < multipleUnits resolution (encodedUnits resolution units) + resolution := by
  rcases Nat.lt_or_ge resolution units with hlt | hle
  · exact multiple_close_of_lt hr hg hlt hmax
  · exact multiple_close_of_le hr hg hle

end Magnitudes

section Values

variable {f g : FixedPoint} {m a : Magnitude} {s : Bool}

def wordLimit (negative : Bool) : Nat := if negative then 0x80000000 else 0x7fffffff

theorem wordLimit_le (s : Bool) : wordLimit s ≤ 0x80000000 := by
  cases s with
  | false => decide
  | true => decide

theorem place_multiple {raw : UInt32} {k : Nat} (m : Magnitude)
    (h : signedValue raw = signed s k) :
    (latticePoint (.finite false m) raw).place =
      signed s (Min.min (multipleUnits m.units k) unitsLimit) := by
  rw [place_latticePoint, h, ← signed_mul, ← signed_mul, mirrored_signed (limitedUnits_zero _),
    limitedUnits, multipleUnits]

theorem place_multiple_of_isFinite {raw : UInt32} {k : Nat} (h : signedValue raw = signed s k)
    (hfinite : (latticePoint (.finite false m) raw).isFinite = true) :
    (latticePoint (.finite false m) raw).place = signed s (multipleUnits m.units k) := by
  rw [latticePoint_eq, isFinite_ofRatio, h, natAbs_signed, ← multipleUnits] at hfinite
  rw [place_multiple m h, Nat.min_eq_left (Nat.le_of_lt hfinite)]

theorem FixedPoint.InRange.units_le (h : f.InRange) (hresolution : f.resolution = .finite false m)
    (hvalue : f.value = .finite s a) : a.units ≤ multipleUnits m.units (wordLimit s) := by
  obtain ⟨habove, hbelow⟩ := h
  obtain ⟨-, -, hlow⟩ := le_iff.1 habove
  obtain ⟨-, -, hhigh⟩ := le_iff.1 hbelow
  cases s with
  | false =>
    rw [hvalue, FixedPoint.maximum_eq, hresolution,
      place_multiple (s := false) m FixedPoint.signedValue_greatest] at hhigh
    exact Nat.le_trans (Int.ofNat_le.1 hhigh) (Nat.min_le_left _ _)
  | true =>
    rw [hvalue, FixedPoint.minimum_eq, hresolution,
      place_multiple (s := true) m FixedPoint.signedValue_least] at hlow
    exact Nat.le_trans (Int.ofNat_le.1 (Int.neg_le_neg_iff.1 hlow)) (Nat.min_le_left _ _)

theorem multipleUnits_wordLimit_le (m : Magnitude) (s : Bool) :
    multipleUnits m.units (wordLimit s) ≤ 0x80000000 * m.units := by
  rw [← multipleUnits_limit m.onGrid]
  exact multipleUnits_mono (wordLimit_le s)

theorem exists_quotient (hm : 0 < m.units) (h : a.units ≤ 0x80000000 * m.units) (s : Bool) :
    ∃ q : Magnitude, q.units = roundUnits (a.units * unitsPerOne) m.units ∧
      (Binary64.finite s a).div (.finite false m) = .finite s q := by
  have hlimit : roundUnits (a.units * unitsPerOne) m.units ≤ 0x80000000 * unitsPerOne := by
    apply roundUnits_le hm (Magnitude.whole 0x80000000 (by decide)).onGrid
    calc
      a.units * unitsPerOne ≤ 0x80000000 * m.units * unitsPerOne := Nat.mul_le_mul_right _ h
      _ = 0x80000000 * unitsPerOne * m.units := by ring
  have hlt := Nat.lt_of_le_of_lt hlimit (Magnitude.whole 0x80000000 (by decide)).representable.1
  refine ⟨⟨_, roundUnits_representable hlt⟩, rfl, ?_⟩
  rw [div_finite hm, Bool.xor_false]
  exact ofRatio_of_lt hlt

theorem clamp_signed {k : Nat} (h : k ≤ wordLimit s) :
    Max.max (-0x80000000) (Min.min 0x7fffffff (signed s k)) = signed s k := by
  cases s with
  | false =>
    have hk : k ≤ 0x7fffffff := h
    simp only [signed, Bool.false_eq_true, if_false]
    omega
  | true =>
    have hk : k ≤ 0x80000000 := h
    simp only [signed, if_true]
    omega

theorem signed_mem {k : Nat} (h : k ≤ wordLimit s) :
    -0x80000000 ≤ signed s k ∧ signed s k < 0x80000000 := by
  have hclamp := clamp_signed h
  omega

theorem FixedPoint.InRange.signedValue_encode (h : f.InRange) (hm : 0 < m.units)
    (hresolution : f.resolution = .finite false m) (hvalue : f.value = .finite s a) :
    signedValue f.encode = signed s (encodedUnits m.units a.units) := by
  have hunits := h.units_le hresolution hvalue
  have hlimit := wordLimit_le s
  have hencoded := encodedUnits_mono hm _ _ hunits
  rw [encodedUnits_multipleUnits hm hlimit] at hencoded
  obtain ⟨q, hq, hquotient⟩ :=
    exists_quotient hm (Nat.le_trans hunits (multipleUnits_wordLimit_le m s)) s
  have hsettled : settledUnits q.units = encodedUnits m.units a.units := by
    rw [hq, encodedUnits]
  have hsmall : nearestWhole q.units < 0x20000000000000 := by
    rcases settledUnits_cases q.units with heq | ⟨-, heq⟩
    · omega
    · omega
  have hsnap : snap (f.value.div f.resolution) = signed s (encodedUnits m.units a.units) := by
    rw [hvalue, hresolution, hquotient, snap_finite hsmall, hsettled, clamp_signed hencoded]
  obtain ⟨hlow, hhigh⟩ := signed_mem hencoded
  rw [FixedPoint.encode, hsnap, signedValue_wordOf hlow hhigh]

theorem FixedPoint.isFinite_of_minimum (h : isResolution f.resolution = true)
    (hfinite : f.minimum.isFinite = true) (raw : UInt32) :
    (latticePoint f.resolution raw).isFinite = true := by
  rw [FixedPoint.minimum_eq] at hfinite
  apply isFinite_latticePoint_mono h _ hfinite
  rw [FixedPoint.signedValue_least]
  have hrange := signedValue_mem raw
  omega

theorem FixedPoint.InRange.isFinite (h : isResolution f.resolution = true) (hrange : f.InRange)
    (hfinite : f.minimum.isFinite = true) : f.value.isFinite = true := by
  apply isFinite_of_le hfinite _ hrange.above hrange.below
  rw [FixedPoint.maximum_eq]
  exact FixedPoint.isFinite_of_minimum h hfinite _

theorem FixedPoint.InRange.signedValue_encode_eq (h : f.InRange) (hm : 0 < m.units)
    (hresolution : f.resolution = .finite false m) (hfinite : f.value.isFinite = true) :
    signedValue f.encode = mirrored (encodedUnits m.units) f.value.place := by
  obtain ⟨s, a, hvalue⟩ := exists_finite hfinite
  rw [h.signedValue_encode hm hresolution hvalue, hvalue, place,
    mirrored_signed (encodedUnits_zero hm)]

theorem FixedPoint.InRange.close (h : f.InRange) (hm : 0 < m.units)
    (hresolution : f.resolution = .finite false m) (hvalue : f.value.isFinite = true)
    (hmultiple : (latticePoint f.resolution f.encode).isFinite = true) :
    (f.value.place - (latticePoint f.resolution f.encode).place).natAbs < m.units := by
  obtain ⟨s, a, hvalue⟩ := exists_finite hvalue
  have hword := h.signedValue_encode hm hresolution hvalue
  have hunits := Nat.le_trans (h.units_le hresolution hvalue) (multipleUnits_wordLimit_le m s)
  obtain ⟨habove, hbelow⟩ := multiple_close hm m.onGrid hunits
  rw [hresolution] at hmultiple ⊢
  rw [place_multiple_of_isFinite hword hmultiple, hvalue, place]
  cases s with
  | false =>
    simp only [signed, Bool.false_eq_true, if_false]
    omega
  | true =>
    simp only [signed, if_true]
    omega

theorem FixedPoint.place_set_mono {x y : Binary64} (h : isResolution f.resolution = true)
    (hle : x.le y = true) : (f.set x).value.place ≤ (f.set y).value.place := by
  obtain ⟨hx, hy, hplace⟩ := le_iff.1 hle
  have hbounds := minimum_le_maximum h
  rw [value_set_of_not_isNaN hx, value_set_of_not_isNaN hy, (clamp_spec hbounds hx).2,
    (clamp_spec hbounds hy).2]
  omega

end Values

/-- In a resolution whose least multiple is finite, what is held of a number and what its word
decodes to are less than one resolution apart, as rational numbers, and what it decodes to has the
same word. A larger number does not have a smaller word. -/
theorem quantization_error_lt_resolution {f : FixedPoint} (h : isResolution f.resolution = true)
    (hfinite : f.minimum.isFinite = true) :
    (∀ (x : Binary64) (g : FixedPoint), g.resolution = f.resolution →
      (f.set x).value.isFinite = true ∧
      (g.decode (f.set x).encode).value.isFinite = true ∧
      |(f.set x).value.toRat - (g.decode (f.set x).encode).value.toRat| < f.resolution.toRat ∧
      (g.decode (f.set x).encode).encode = (f.set x).encode) ∧
    ∀ x y : Binary64, x.le y = true →
      signedValue (f.set x).encode ≤ signedValue (f.set y).encode := by
  obtain ⟨m, hm, hresolution⟩ := isResolution_iff.1 h
  have hheld (x : Binary64) : (f.set x).InRange ∧ (f.set x).value.isFinite = true := by
    have hrange := FixedPoint.InRange.set h x
    rw [← FixedPoint.minimum_set f x] at hfinite
    rw [← FixedPoint.set_resolution f x] at h
    exact ⟨hrange, hrange.isFinite h hfinite⟩
  have hown (x : Binary64) : (f.set x).resolution = .finite false m := by
    rw [FixedPoint.set_resolution, hresolution]
  constructor
  · intro x g hg
    obtain ⟨hrange, hvalue⟩ := hheld x
    have hmultiple := FixedPoint.isFinite_of_minimum h hfinite (f.set x).encode
    have hdecoded : g.decode (f.set x).encode =
        ⟨f.resolution, latticePoint f.resolution (f.set x).encode⟩ := by
      rw [FixedPoint.decode, hg]
    rw [hdecoded]
    refine ⟨hvalue, hmultiple, ?_, ?_⟩
    · have hclose := hrange.close hm (hown x) hvalue
      rw [FixedPoint.set_resolution] at hclose
      rw [hresolution] at hclose hmultiple ⊢
      exact abs_toRat_sub_lt (hclose hmultiple)
    · rw [encode_ofRaw h, if_pos hmultiple]
  · intro x y hle
    obtain ⟨hrangeX, hvalueX⟩ := hheld x
    obtain ⟨hrangeY, hvalueY⟩ := hheld y
    rw [hrangeX.signedValue_encode_eq hm (hown x) hvalueX,
      hrangeY.signedValue_encode_eq hm (hown y) hvalueY]
    exact mirrored_mono (encodedUnits_mono hm) (FixedPoint.place_set_mono h hle)

/-- One degree and two degrees on the resolution of angles. -/
theorem degreesPerTurnStep_keeps_degrees :
    ∃ f : FixedPoint, f.resolution = degreesPerTurnStep ∧ isResolution f.resolution = true ∧
      f.minimum.isFinite = true ∧
      |(f.set (ofNat 1)).value.toRat - (f.decode (f.set (ofNat 1)).encode).value.toRat| <
        f.resolution.toRat ∧
      (ofNat 1).le (ofNat 2) = true ∧
      signedValue (f.set (ofNat 1)).encode ≤ signedValue (f.set (ofNat 2)).encode := by
  have h : isResolution degreesPerTurnStep = true := by decide +kernel
  have hfinite : (FixedPoint.minimum ⟨degreesPerTurnStep, .zero false⟩).isFinite = true := by
    decide +kernel
  have hle : (ofNat 1).le (ofNat 2) = true := by decide +kernel
  obtain ⟨herror, hmono⟩ :=
    quantization_error_lt_resolution (f := ⟨degreesPerTurnStep, .zero false⟩) h hfinite
  exact ⟨_, rfl, h, hfinite, (herror (ofNat 1) _ rfl).2.2.1, hle, hmono _ _ hle⟩

end Wire
end InstrumentBus
