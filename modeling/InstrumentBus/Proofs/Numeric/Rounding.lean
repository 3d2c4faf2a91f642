import InstrumentBus.Numeric.Arithmetic
import Mathlib.Data.Nat.Log
import Mathlib.Tactic.Ring

/-!
# What rounding preserves

Rounding to the nearest double keeps every number that is one, keeps the order of numbers,
and, where the grid is coarser than the numbers that are rounded, is off by at most one part
in `2 ^ 53`. Numbers are given as quotients and compared by cross multiplication.
-/

namespace InstrumentBus
namespace Numeric

/-- A magnitude of at most 53 significant bits, however large. -/
def OnGrid (units : Nat) : Prop :=
  ∃ significand exponent, significand < 0x20000000000000 ∧
    units = significand * Nat.pow 2 exponent

theorem OnGrid.shift {significand : Nat} (h : significand < 0x20000000000000) (exponent : Nat) :
    OnGrid (significand * Nat.pow 2 exponent) := ⟨significand, exponent, h, rfl⟩

theorem onGrid_of_lt {units : Nat} (h : units < 0x20000000000000) : OnGrid units := by
  have hshift := OnGrid.shift h 0
  rwa [Nat.pow_eq, Nat.pow_zero, Nat.mul_one] at hshift

theorem onGrid_pow (exponent : Nat) : OnGrid (Nat.pow 2 exponent) := by
  have hshift := OnGrid.shift (by decide : 1 < 0x20000000000000) exponent
  rwa [Nat.one_mul] at hshift

theorem OnGrid.mul_pow {units : Nat} (h : OnGrid units) (k : Nat) :
    OnGrid (Nat.pow 2 k * units) := by
  obtain ⟨significand, exponent, hs, rfl⟩ := h
  refine ⟨significand, k + exponent, hs, ?_⟩
  rw [Nat.pow_eq, Nat.pow_eq, Nat.pow_eq, Nat.pow_add]
  ring

section Integers

variable {a b c d k : Nat}

theorem nearestEven_le_of_le (hd : 0 < d) (h : a ≤ k * d) : nearestEven a d ≤ k := by
  rcases Nat.lt_or_eq_of_le h with hlt | heq
  · have hdiv : a / d < k := (Nat.div_lt_iff_lt_mul hd).2 hlt
    exact Nat.le_trans (nearestEven_le a d) hdiv
  · rw [heq, nearestEven_mul k d hd]

theorem le_nearestEven_of_le (hd : 0 < d) (h : k * d ≤ a) : k ≤ nearestEven a d :=
  Nat.le_trans ((Nat.le_div_iff_mul_le hd).2 h) (le_nearestEven a d)

theorem div_le_div_of_mul_le (hb : 0 < b) (hd : 0 < d) (h : a * d ≤ c * b) : a / b ≤ c / d := by
  rw [Nat.le_div_iff_mul_le hd]
  apply Nat.le_of_mul_le_mul_right _ hb
  calc
    a / b * d * b = b * (a / b) * d := by ring
    _ ≤ a * d := Nat.mul_le_mul_right d (Nat.mul_div_le a b)
    _ ≤ c * b := h

theorem nearestEven_mono (hb : 0 < b) (hd : 0 < d) (h : a * d ≤ c * b) :
    nearestEven a b ≤ nearestEven c d := by
  have ha := Nat.div_add_mod a b
  have hc := Nat.div_add_mod c d
  rcases Nat.lt_or_eq_of_le (div_le_div_of_mul_le hb hd h) with hlt | heq
  · exact Nat.le_trans (nearestEven_le a b) (Nat.le_trans hlt (le_nearestEven c d))
  -- Of two numbers between the same integers, the remainders are in order.
  have hrem : a % b * d ≤ c % d * b := by
    have hl : a * d = a / b * (b * d) + a % b * d := by
      conv_lhs => rw [← ha]
      ring
    have hr : c * b = c / d * (b * d) + c % d * b := by
      conv_lhs => rw [← hc]
      ring
    rw [hl, hr, heq] at h
    exact Nat.le_of_add_le_add_left h
  have hhalf : b ≤ 2 * (a % b) → d ≤ 2 * (c % d) := by
    intro hle
    apply Nat.le_of_mul_le_mul_right _ hb
    calc
      d * b = b * d := Nat.mul_comm d b
      _ ≤ 2 * (a % b) * d := Nat.mul_le_mul_right d hle
      _ = 2 * (a % b * d) := Nat.mul_assoc ..
      _ ≤ 2 * (c % d * b) := Nat.mul_le_mul_left 2 hrem
      _ = 2 * (c % d) * b := (Nat.mul_assoc ..).symm
  have hover : b < 2 * (a % b) → d < 2 * (c % d) := by
    intro hlt
    apply Nat.lt_of_mul_lt_mul_right (a := b)
    calc
      d * b = b * d := Nat.mul_comm d b
      _ < 2 * (a % b) * d := Nat.mul_lt_mul_of_pos_right hlt hd
      _ = 2 * (a % b * d) := Nat.mul_assoc ..
      _ ≤ 2 * (c % d * b) := Nat.mul_le_mul_left 2 hrem
      _ = 2 * (c % d) * b := (Nat.mul_assoc ..).symm
  by_cases hlow : 2 * (a % b) < b
  · rw [nearestEven, if_pos hlow, heq]
    exact le_nearestEven c d
  · have hnotlow : ¬ 2 * (c % d) < d := Nat.not_lt.2 (hhalf (Nat.le_of_not_lt hlow))
    rw [nearestEven, nearestEven, if_neg hlow, if_neg hnotlow, heq]
    by_cases hhigh : b < 2 * (a % b)
    · rw [if_pos hhigh, if_pos (hover hhigh)]
    · rw [if_neg hhigh]
      split
      · omega
      · exact Nat.le_refl _

end Integers

section Units

variable {num den g : Nat}

theorem spacing_mono {a b : Nat} (h : a ≤ b) : spacing a ≤ spacing b := by
  unfold spacing
  rw [Nat.log2_eq_log_two, Nat.log2_eq_log_two]
  exact Nat.sub_le_sub_right (Nat.log_mono_right h) 52

theorem spacing_pos {units : Nat} (h : 0x20000000000000 ≤ units) : 0 < spacing units := by
  have hone : spacing 0x20000000000000 = 1 := by decide +kernel
  have hmono := spacing_mono h
  omega

theorem pow_le_of_spacing_pos {units : Nat} (h : 0 < spacing units) :
    Nat.pow 2 (52 + spacing units) ≤ units := by
  have hlog : 52 + spacing units = units.log2 := by
    unfold spacing at h ⊢
    omega
  have hne : units ≠ 0 := by
    rintro rfl
    exact absurd h (by decide)
  rw [hlog]
  exact Nat.log2_self_le hne

/-- On a grid that is coarser than one unit, the significand takes all of its 53 bits. -/
theorem pow_mul_le_of_spacing_pos (hd : 0 < den) (h : 0 < spacing (num / den)) :
    Nat.pow 2 52 * (den * Nat.pow 2 (spacing (num / den))) ≤ num := by
  have hle := pow_le_of_spacing_pos h
  rw [Nat.le_div_iff_mul_le hd, Nat.pow_eq, Nat.pow_add] at hle
  calc
    2 ^ 52 * (den * 2 ^ spacing (num / den)) = 2 ^ 52 * 2 ^ spacing (num / den) * den := by ring
    _ ≤ num := hle

theorem spaced_pos (num : Nat) (hd : 0 < den) : 0 < den * Nat.pow 2 (spacing (num / den)) :=
  Nat.mul_pos hd (Nat.two_pow_pos _)

/-- A double stands on a grid of any spacing or below the numbers that need 53 bits on it. -/
theorem OnGrid.multiple_or_lt (hg : OnGrid g) (s : Nat) :
    (∃ k, g = k * Nat.pow 2 s) ∨ g < Nat.pow 2 52 * Nat.pow 2 s := by
  obtain ⟨significand, exponent, hs, rfl⟩ := hg
  by_cases hle : s ≤ exponent
  · refine Or.inl ⟨significand * Nat.pow 2 (exponent - s), ?_⟩
    rw [Nat.pow_eq, Nat.pow_eq, Nat.pow_eq, Nat.mul_assoc, ← Nat.pow_add, Nat.sub_add_cancel hle]
  · apply Or.inr
    calc
      significand * 2 ^ exponent < 2 ^ 53 * 2 ^ exponent :=
        Nat.mul_lt_mul_of_pos_right hs (Nat.two_pow_pos _)
      _ = 2 ^ (53 + exponent) := (Nat.pow_add ..).symm
      _ ≤ 2 ^ (52 + s) := Nat.pow_le_pow_right (by decide) (by omega)
      _ = 2 ^ 52 * 2 ^ s := Nat.pow_add ..

/-- The grid around a quotient takes all of the 53 bits or has a spacing of one unit. -/
theorem spacing_eq_zero_or (num : Nat) (hd : 0 < den) :
    spacing (num / den) = 0 ∨
      Nat.pow 2 52 * (den * Nat.pow 2 (spacing (num / den))) ≤ num := by
  rcases Nat.eq_zero_or_pos (spacing (num / den)) with hzero | hpos
  · exact Or.inl hzero
  · exact Or.inr (pow_mul_le_of_spacing_pos hd hpos)

theorem roundUnits_le (hd : 0 < den) (hg : OnGrid g) (h : num ≤ g * den) :
    roundUnits num den ≤ g := by
  have hpos := spaced_pos num hd
  unfold roundUnits
  rcases hg.multiple_or_lt (spacing (num / den)) with ⟨k, hk⟩ | hlt
  · rw [hk]
    apply Nat.mul_le_mul_right
    apply nearestEven_le_of_le hpos
    calc
      num ≤ g * den := h
      _ = k * (den * Nat.pow 2 (spacing (num / den))) := by rw [hk]; ring
  · rcases spacing_eq_zero_or num hd with hzero | hbig
    · rw [hzero, Nat.pow_eq, Nat.pow_zero, Nat.mul_one, Nat.mul_one]
      exact nearestEven_le_of_le hd h
    · -- The number would lie above the double.
      exfalso
      have hmul := Nat.mul_lt_mul_of_pos_right hlt hd
      have hassoc : Nat.pow 2 52 * Nat.pow 2 (spacing (num / den)) * den =
          Nat.pow 2 52 * (den * Nat.pow 2 (spacing (num / den))) := by ring
      omega

theorem le_roundUnits (hd : 0 < den) (hg : OnGrid g) (h : g * den ≤ num) :
    g ≤ roundUnits num den := by
  have hpos := spaced_pos num hd
  unfold roundUnits
  rcases hg.multiple_or_lt (spacing (num / den)) with ⟨k, hk⟩ | hlt
  · rw [hk]
    apply Nat.mul_le_mul_right
    apply le_nearestEven_of_le hpos
    calc
      k * (den * Nat.pow 2 (spacing (num / den))) = g * den := by rw [hk]; ring
      _ ≤ num := h
  · rcases spacing_eq_zero_or num hd with hzero | hbig
    · rw [hzero, Nat.pow_eq, Nat.pow_zero, Nat.mul_one, Nat.mul_one]
      exact le_nearestEven_of_le hd h
    · exact Nat.le_trans (Nat.le_of_lt hlt)
        (Nat.mul_le_mul_right _ (le_nearestEven_of_le hpos hbig))

theorem roundUnits_mul (hd : 0 < den) (hg : OnGrid g) : roundUnits (g * den) den = g :=
  Nat.le_antisymm (roundUnits_le hd hg (Nat.le_refl _)) (le_roundUnits hd hg (Nat.le_refl _))

theorem roundUnits_one (hg : OnGrid g) : roundUnits g 1 = g := by
  have hexact := roundUnits_mul (by decide : 0 < 1) hg
  rwa [Nat.mul_one] at hexact

theorem roundUnits_mono {a b c d : Nat} (hb : 0 < b) (hd : 0 < d) (h : a * d ≤ c * b) :
    roundUnits a b ≤ roundUnits c d := by
  rcases Nat.lt_or_eq_of_le (spacing_mono (div_le_div_of_mul_le hb hd h)) with hlt | heq
  · -- A power of two lies between the numbers.
    have hbelow : a ≤ Nat.pow 2 (52 + spacing (c / d)) * b := by
      have hpow := (Nat.div_lt_iff_lt_mul hb).1 (lt_two_pow_spacing (a / b))
      have hle : 2 ^ (53 + spacing (a / b)) * b ≤ 2 ^ (52 + spacing (c / d)) * b :=
        Nat.mul_le_mul_right b (Nat.pow_le_pow_right (by decide) (by omega))
      exact Nat.le_trans (Nat.le_of_lt hpow) hle
    have habove : Nat.pow 2 (52 + spacing (c / d)) * d ≤ c :=
      (Nat.le_div_iff_mul_le hd).1 (pow_le_of_spacing_pos (by omega))
    exact Nat.le_trans (roundUnits_le hb (onGrid_pow _) hbelow)
      (le_roundUnits hd (onGrid_pow _) habove)
  · unfold roundUnits
    rw [heq]
    apply Nat.mul_le_mul_right
    apply nearestEven_mono (Nat.mul_pos hb (Nat.two_pow_pos _)) (Nat.mul_pos hd (Nat.two_pow_pos _))
    calc
      a * (d * Nat.pow 2 (spacing (c / d))) = a * d * Nat.pow 2 (spacing (c / d)) := by ring
      _ ≤ c * b * Nat.pow 2 (spacing (c / d)) := Nat.mul_le_mul_right _ h
      _ = c * (b * Nat.pow 2 (spacing (c / d))) := by ring

/-- A whole number of units, or a number of more than 53 bits, is off by at most one part in
`2 ^ 53` after rounding. -/
theorem roundUnits_close (hd : 0 < den) (h : den ∣ num ∨ 0 < spacing (num / den)) :
    0x20000000000000 * (roundUnits num den * den) ≤ 0x20000000000000 * num + num ∧
      0x20000000000000 * num ≤ 0x20000000000000 * (roundUnits num den * den) + num := by
  by_cases hs : 0 < spacing (num / den)
  · have hbig := pow_mul_le_of_spacing_pos hd hs
    obtain ⟨hup, hdown⟩ := nearestEven_close num (den * Nat.pow 2 (spacing (num / den)))
      (spaced_pos num hd)
    have hround : roundUnits num den * den =
        nearestEven num (den * Nat.pow 2 (spacing (num / den))) *
          (den * Nat.pow 2 (spacing (num / den))) := by
      unfold roundUnits
      ring
    have h52 : Nat.pow 2 52 = 0x10000000000000 := by decide
    rw [h52] at hbig
    rw [hround]
    constructor
    · omega
    · omega
  · have hdvd : den ∣ num := by
      rcases h with hdvd | hpos
      · exact hdvd
      · exact absurd hpos hs
    obtain ⟨n, rfl⟩ := hdvd
    have hn : den * n / den = n := Nat.mul_div_cancel_left n hd
    rw [hn] at hs
    have hlt := lt_two_pow_spacing n
    have hzero : spacing n = 0 := by omega
    rw [hzero] at hlt
    rw [Nat.mul_comm den n, roundUnits_mul hd (onGrid_of_lt hlt)]
    constructor
    · omega
    · omega

end Units

def Magnitude.whole (k : Nat) (h : k < 0x20000000000000) : Magnitude :=
  ⟨k * unitsPerOne, by
    refine ⟨?_, k, oneExponent, h, rfl⟩
    have hlt : k * 2 ^ oneExponent < 2 ^ 53 * 2 ^ oneExponent :=
      Nat.mul_lt_mul_of_pos_right h (Nat.two_pow_pos _)
    have hle : (2 : Nat) ^ 53 * 2 ^ oneExponent ≤ 2 ^ limitExponent := by
      rw [← Nat.pow_add]
      apply Nat.pow_le_pow_right (by decide)
      unfold oneExponent limitExponent
      decide
    exact Nat.lt_of_lt_of_le hlt hle⟩

theorem Magnitude.onGrid (m : Magnitude) : OnGrid m.units := m.representable.2

theorem roundUnits_whole {k : Nat} (h : k < 0x20000000000000) :
    roundUnits (k * unitsPerOne) 1 = (Magnitude.whole k h).units :=
  roundUnits_one (Magnitude.whole k h).onGrid

namespace Binary64

variable {negative : Bool} {num den : Nat}

theorem ofRatio_of_lt (h : roundUnits num den < unitsLimit) :
    ofRatio negative num den = .finite negative ⟨_, roundUnits_representable h⟩ := dif_pos h

theorem ofRatio_of_not_lt (h : ¬ roundUnits num den < unitsLimit) :
    ofRatio negative num den = .infinite negative := dif_neg h

theorem ofRatio_eq_finite {m : Magnitude} (h : roundUnits num den = m.units) :
    ofRatio negative num den = .finite negative m := by
  obtain ⟨units, hm⟩ := m
  subst h
  exact ofRatio_of_lt hm.1

theorem isFinite_ofRatio :
    (ofRatio negative num den).isFinite = true ↔ roundUnits num den < unitsLimit := by
  by_cases h : roundUnits num den < unitsLimit
  · simp [ofRatio_of_lt h, isFinite, h]
  · simp [ofRatio_of_not_lt h, isFinite, h]

theorem ofInt_eq {z : Int} (h : z.natAbs < 0x20000000000000) :
    ofInt z = .finite (decide (z < 0)) (Magnitude.whole z.natAbs h) :=
  ofRatio_eq_finite (roundUnits_whole h)

theorem ofNat_eq {k : Nat} (h : k < 0x20000000000000) :
    ofNat k = .finite false (Magnitude.whole k h) :=
  ofRatio_eq_finite (roundUnits_whole h)

theorem signed_natAbs (z : Int) : signed (decide (z < 0)) z.natAbs = z := by
  by_cases h : z < 0
  · rw [signed, if_pos (decide_eq_true h)]
    omega
  · rw [signed, if_neg (by simpa using h)]
    omega

theorem div_finite {s t : Bool} {a b : Magnitude} (hb : 0 < b.units) :
    (Binary64.finite s a).div (.finite t b) =
      ofRatio (s ^^ t) (a.units * unitsPerOne) b.units :=
  if_neg (Nat.pos_iff_ne_zero.1 hb)

/-- The distance of a signed number of units from zero is compared with a double once it is
rounded. -/
theorem abs_ofSigned_le_iff {zeroSign : Bool} {units : Int} {m : Magnitude} :
    (ofSigned zeroSign units).abs.le (.finite false m) = true ↔
      roundUnits units.natAbs 1 ≤ m.units := by
  by_cases hzero : units = 0
  · have hround : roundUnits units.natAbs 1 = 0 := by
      rw [hzero]
      exact roundUnits_one (onGrid_of_lt (by decide : 0 < 0x20000000000000))
    rw [ofSigned, if_pos hzero, hround]
    exact ⟨fun _ => Nat.zero_le _, fun _ => le_iff.2 ⟨rfl, rfl, Int.natCast_nonneg _⟩⟩
  · rw [ofSigned, if_neg hzero]
    by_cases hlt : roundUnits units.natAbs 1 < unitsLimit
    · rw [ofRatio_of_lt hlt, le_iff]
      exact ⟨fun h => Int.ofNat_le.1 h.2.2, fun h => ⟨rfl, rfl, Int.ofNat_le.2 h⟩⟩
    · have hlimit := m.representable.1
      rw [ofRatio_of_not_lt hlt, le_iff]
      constructor
      · intro h
        have hplace : unitsLimit ≤ m.units := Int.ofNat_le.1 h.2.2
        omega
      · intro h
        omega

end Binary64
end Numeric
end InstrumentBus
