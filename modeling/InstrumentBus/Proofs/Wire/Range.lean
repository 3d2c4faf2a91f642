import InstrumentBus.Wire.Reader
import InstrumentBus.Proofs.Wire.Lattice

/-!
# The range of a fixed-point value

The multiples of a resolution are in the order of the words they stand for: a multiple that
overflows stands at the limit of the doubles, which no other one passes. So the limits of a value
enclose every multiple, zero among them, and whatever is set, decoded or read lies between them.
-/

namespace InstrumentBus
namespace Wire

open Numeric Binary64

section Multiples

variable {resolution : Binary64} {m : Magnitude} {a b : UInt32}

theorem place_ofInt {z : Int} (h : z.natAbs < 0x20000000000000) :
    (ofInt z).place = z * unitsPerOne := by
  rw [ofInt_eq h]
  change signed (decide (z < 0)) (z.natAbs * unitsPerOne) = z * unitsPerOne
  rw [signed_mul, signed_natAbs]

theorem place_latticePoint (m : Magnitude) (raw : UInt32) :
    (latticePoint (.finite false m) raw).place =
      mirrored (limitedUnits unitsPerOne) (signedValue raw * unitsPerOne * m.units) := by
  have hrange := signedValue_mem raw
  have hsmall : (signedValue raw).natAbs < 0x20000000000000 := by omega
  have hfinite : (ofInt (signedValue raw)).isFinite = true := by
    rw [ofInt_eq hsmall]
    rfl
  rw [latticePoint, place_mul hfinite, place_ofInt hsmall]

theorem isNaN_latticePoint (h : isResolution resolution = true) (raw : UInt32) :
    (latticePoint resolution raw).isNaN = false := by
  obtain ⟨m, -, rfl⟩ := isResolution_iff.1 h
  rw [latticePoint_eq]
  exact ofRatio_isNaN _ _ _

theorem latticePoint_le (h : isResolution resolution = true)
    (hle : signedValue a ≤ signedValue b) :
    (latticePoint resolution a).le (latticePoint resolution b) = true := by
  refine le_iff.2 ⟨isNaN_latticePoint h a, isNaN_latticePoint h b, ?_⟩
  obtain ⟨m, -, rfl⟩ := isResolution_iff.1 h
  rw [place_latticePoint, place_latticePoint]
  apply mirrored_mono (limitedUnits_mono unitsPerOne_pos)
  apply Int.mul_le_mul_of_nonneg_right _ (Int.natCast_nonneg _)
  exact Int.mul_le_mul_of_nonneg_right hle (Int.natCast_nonneg _)

theorem place_latticePoint_zero (h : isResolution resolution = true) :
    (latticePoint resolution 0).place = 0 := by
  obtain ⟨m, -, rfl⟩ := isResolution_iff.1 h
  have hzero : signedValue 0 * unitsPerOne * m.units = signed false 0 := by
    have hvalue : signedValue 0 = 0 := by decide
    rw [hvalue, Int.zero_mul, Int.zero_mul]
    rfl
  rw [place_latticePoint, hzero, mirrored_signed (limitedUnits_zero _), limitedUnits_zero]
  rfl

end Multiples

namespace FixedPoint

structure InRange (f : FixedPoint) : Prop where
  above : f.minimum.le f.value = true
  below : f.value.le f.maximum = true

/-- The values that arise from zero or a word in a resolution. -/
inductive Reachable (resolution : Binary64) : FixedPoint → Prop where
  | new {f : FixedPoint} (h : FixedPoint.new resolution = .ok f) : Reachable resolution f
  | ofRaw {f : FixedPoint} (raw : UInt32) (h : FixedPoint.ofRaw resolution raw = .ok f) :
      Reachable resolution f
  | set {f : FixedPoint} (h : Reachable resolution f) (x : Binary64) :
      Reachable resolution (f.set x)
  | decode {f : FixedPoint} (h : Reachable resolution f) (raw : UInt32) :
      Reachable resolution (f.decode raw)
  | read {f f' : FixedPoint} {r r' : Reader} (h : Reachable resolution f)
      (hread : r.fixed f = .ok (f', r')) : Reachable resolution f'

section

variable {resolution : Binary64} {f f' : FixedPoint} {r r' : Reader}

theorem signedValue_least : signedValue 0x80000000 = -0x80000000 := by decide

theorem signedValue_greatest : signedValue 0x7fffffff = 0x7fffffff := by decide

@[simp] theorem minimum_set (f : FixedPoint) (x : Binary64) : (f.set x).minimum = f.minimum := by
  rw [minimum, minimum, set_resolution]

@[simp] theorem maximum_set (f : FixedPoint) (x : Binary64) : (f.set x).maximum = f.maximum := by
  rw [maximum, maximum, set_resolution]

theorem minimum_eq (f : FixedPoint) : f.minimum = latticePoint f.resolution 0x80000000 := by
  rw [minimum, latticePoint, signedValue_least]

theorem maximum_eq (f : FixedPoint) : f.maximum = latticePoint f.resolution 0x7fffffff := by
  rw [maximum, latticePoint, signedValue_greatest]

theorem minimum_le_latticePoint (h : isResolution f.resolution = true) (raw : UInt32) :
    f.minimum.le (latticePoint f.resolution raw) = true := by
  rw [minimum_eq]
  apply latticePoint_le h
  rw [signedValue_least]
  exact (signedValue_mem raw).1

theorem latticePoint_le_maximum (h : isResolution f.resolution = true) (raw : UInt32) :
    (latticePoint f.resolution raw).le f.maximum = true := by
  rw [maximum_eq]
  apply latticePoint_le h
  rw [signedValue_greatest]
  exact Int.lt_add_one_iff.1 (signedValue_mem raw).2

theorem minimum_le_maximum (h : isResolution f.resolution = true) :
    f.minimum.le f.maximum = true := by
  rw [maximum_eq]
  exact minimum_le_latticePoint h _

theorem InRange.isNaN_eq (h : f.InRange) : f.value.isNaN = false := (le_iff.1 h.above).2.1

theorem minimum_le_zero (h : isResolution f.resolution = true) :
    f.minimum.le (.zero false) = true := by
  obtain ⟨hnumber, -, hplace⟩ := le_iff.1 (minimum_le_latticePoint h 0)
  rw [place_latticePoint_zero h] at hplace
  rw [le_iff, place_zero]
  exact ⟨hnumber, rfl, hplace⟩

theorem zero_le_maximum (h : isResolution f.resolution = true) :
    (Binary64.zero false).le f.maximum = true := by
  obtain ⟨-, hnumber, hplace⟩ := le_iff.1 (latticePoint_le_maximum h 0)
  rw [place_latticePoint_zero h] at hplace
  rw [le_iff, place_zero]
  exact ⟨rfl, hnumber, hplace⟩

theorem InRange.of_zero (h : isResolution f.resolution = true) (hvalue : f.value = .zero false) :
    f.InRange := by
  constructor
  · rw [hvalue]
    exact minimum_le_zero h
  · rw [hvalue]
    exact zero_le_maximum h

theorem InRange.of_latticePoint {raw : UInt32} (h : isResolution f.resolution = true)
    (hvalue : f.value = latticePoint f.resolution raw) : f.InRange := by
  constructor
  · rw [hvalue]
    exact minimum_le_latticePoint h raw
  · rw [hvalue]
    exact latticePoint_le_maximum h raw

theorem InRange.decode (h : isResolution f.resolution = true) (raw : UInt32) :
    (f.decode raw).InRange := by
  rw [← decode_resolution f raw] at h
  apply InRange.of_latticePoint h
  rw [FixedPoint.decode]

theorem value_set_of_isNaN {x : Binary64} (h : x.isNaN = true) :
    (f.set x).value = .zero false := by
  rw [FixedPoint.set]
  exact if_pos h

theorem value_set_of_not_isNaN {x : Binary64} (h : x.isNaN = false) :
    (f.set x).value = x.clamp f.minimum f.maximum := by
  simp [FixedPoint.set, h]

theorem InRange.set (h : isResolution f.resolution = true) (x : Binary64) :
    (f.set x).InRange := by
  cases hx : x.isNaN with
  | true =>
    rw [← set_resolution f x] at h
    exact InRange.of_zero h (value_set_of_isNaN hx)
  | false =>
    have hbounds := minimum_le_maximum h
    obtain ⟨hlow, hhigh, hle⟩ := le_iff.1 hbounds
    obtain ⟨hnumber, hplace⟩ := clamp_spec hbounds hx
    constructor
    · rw [minimum_set, value_set_of_not_isNaN hx, le_iff, hplace]
      exact ⟨hlow, hnumber, Int.le_max_left _ _⟩
    · rw [maximum_set, value_set_of_not_isNaN hx, le_iff, hplace]
      exact ⟨hnumber, hhigh, Int.max_le.2 ⟨hle, Int.min_le_right _ _⟩⟩

theorem decode_of_fixed (h : r.fixed f = .ok (f', r')) : ∃ raw, f' = f.decode raw := by
  unfold Reader.fixed at h
  cases hword : r.word with
  | error e =>
    rw [hword] at h
    cases h
  | ok read =>
    rw [hword] at h
    obtain ⟨raw, rest⟩ := read
    injection h with hread
    injection hread with hvalue
    exact ⟨raw, hvalue.symm⟩

/-- Every reachable value keeps its resolution and is in range. -/
theorem Reachable.spec (hr : isResolution resolution = true) (h : Reachable resolution f) :
    f.resolution = resolution ∧ f.InRange := by
  induction h with
  | new h =>
    obtain ⟨-, rfl⟩ := new_eq_ok_iff.1 h
    exact ⟨rfl, .of_zero hr rfl⟩
  | ofRaw raw h =>
    rw [ofRaw_eq hr] at h
    injection h with h
    subst h
    exact ⟨rfl, .of_latticePoint hr rfl⟩
  | set _ x ih =>
    obtain ⟨rfl, -⟩ := ih
    exact ⟨set_resolution _ x, .set hr x⟩
  | decode _ raw ih =>
    obtain ⟨rfl, -⟩ := ih
    exact ⟨decode_resolution _ raw, .decode hr raw⟩
  | read _ hread ih =>
    obtain ⟨rfl, -⟩ := ih
    obtain ⟨raw, rfl⟩ := decode_of_fixed hread
    exact ⟨decode_resolution _ raw, .decode hr raw⟩

theorem isNaN_settled_quotient (h : isResolution f.resolution = true) (hrange : f.InRange) :
    (settled (f.value.div f.resolution)).isNaN = false := by
  obtain ⟨m, hm, hresolution⟩ := isResolution_iff.1 h
  rw [hresolution]
  exact isNaN_settled (isNaN_div hm hrange.isNaN_eq)

/-- A reachable value is a number between its limits, which are in order, so that it can be
clamped. A number between them is held as it is, one beyond them as the nearer limit, NaN as
zero. What is converted to the integer of a word is a number. -/
theorem values_stay_in_range (hr : isResolution resolution = true) :
    (∃ f, FixedPoint.new resolution = .ok f) ∧
    (∀ raw, ∃ f, FixedPoint.ofRaw resolution raw = .ok f) ∧
    ∀ f, Reachable resolution f →
      f.resolution = resolution ∧
      f.minimum.le f.maximum = true ∧
      f.value.isNaN = false ∧ f.minimum.le f.value = true ∧ f.value.le f.maximum = true ∧
      (∀ x : Binary64,
        (x.isNaN = true → (f.set x).value = .zero false) ∧
        (f.minimum.le x = true → x.le f.maximum = true → (f.set x).value = x) ∧
        (x.lt f.minimum = true → (f.set x).value = f.minimum) ∧
        (f.maximum.lt x = true → (f.set x).value = f.maximum)) ∧
      (settled (f.value.div f.resolution)).isNaN = false ∧
      f.encode = wordOf
        ((settled (f.value.div f.resolution)).toIntClamped (-0x80000000) 0x7fffffff) := by
  refine ⟨⟨_, new_eq_ok_iff.2 ⟨hr, rfl⟩⟩, fun raw => ⟨_, ofRaw_eq hr raw⟩, ?_⟩
  intro f hf
  obtain ⟨hresolution, hrange⟩ := hf.spec hr
  have hown : isResolution f.resolution = true := by rw [hresolution]; exact hr
  refine ⟨hresolution, minimum_le_maximum hown, hrange.isNaN_eq, hrange.above, hrange.below, ?_,
    isNaN_settled_quotient hown hrange, by rw [encode, snap_eq]⟩
  intro x
  refine ⟨value_set_of_isNaN, ?_, ?_, ?_⟩
  · intro hlow hhigh
    rw [value_set_of_not_isNaN (le_iff.1 hhigh).1, clamp_of_mem hlow hhigh]
  · intro hbelow
    rw [value_set_of_not_isNaN (lt_iff.1 hbelow).1, clamp_of_lt hbelow]
  · intro habove
    rw [value_set_of_not_isNaN (lt_iff.1 habove).2.1, clamp_of_gt (minimum_le_maximum hown) habove]

/-- Twice the widest step is held as infinity, which is the greatest value there. -/
theorem widestStep_in_range :
    isResolution widestStep = true ∧
    ∃ f, Reachable widestStep f ∧ f.value = .infinite false ∧
      f.minimum.le f.value = true ∧ f.value.le f.maximum = true ∧
      (f.set .nan).value = .zero false := by
  have h : isResolution widestStep = true := by decide +kernel
  have hvalue : latticePoint widestStep 2 = .infinite false := by decide +kernel
  have hf := ofRaw_eq h 2
  rw [hvalue] at hf
  obtain ⟨-, -, hall⟩ := values_stay_in_range h
  have hreachable : Reachable widestStep ⟨widestStep, .infinite false⟩ := .ofRaw 2 hf
  obtain ⟨-, -, -, hlow, hhigh, hset, -⟩ := hall _ hreachable
  exact ⟨h, _, hreachable, rfl, hlow, hhigh, (hset .nan).1 rfl⟩

end

end FixedPoint

end Wire
end InstrumentBus
