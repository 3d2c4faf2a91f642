import InstrumentBus.Text.Blank
import InstrumentBus.Text.Numeral
import Mathlib.Data.List.Induction
import Mathlib.Data.List.Forall2
import Mathlib.Data.Nat.Digits.Defs

/-!
# Numerals and the numbers they spell

Digits of a radix spell a number, the most significant one first and with any number of zeros in
front. A numeral is read exactly if it is written so, behind a mark or without one, and is below the
bound: it is then the number that its digits spell, and one that is not below it is too large.
-/

namespace InstrumentBus
namespace Text
namespace Numeral

/-- Digits of a radix, at least one of them, and the number they spell. -/
inductive Spells (radix : Nat) : Nat → List Char → Prop where
  | digit {c : Char} {d : Nat} (h : digit? radix c = some d) : Spells radix d [c]
  | more {n d : Nat} {text : List Char} {c : Char} (h : Spells radix n text)
      (hc : digit? radix c = some d) : Spells radix (radix * n + d) (text ++ [c])

variable {radix bound n d : Nat} {c : Char} {text : List Char}

theorem toNat_of_digitValue (h : digitValue? c = some d) :
    (48 ≤ c.toNat ∧ c.toNat ≤ 57) ∨ (97 ≤ c.toNat ∧ c.toNat ≤ 122) ∨
      (65 ≤ c.toNat ∧ c.toNat ≤ 90) := by
  unfold digitValue? at h
  split at h
  · next hfigure => exact Or.inl hfigure
  · split at h
    · next hsmall => exact Or.inr (Or.inl hsmall)
    · split at h
      · next hlarge => exact Or.inr (Or.inr hlarge)
      · cases h

theorem toNat_of_digit (h : digit? radix c = some d) :
    (48 ≤ c.toNat ∧ c.toNat ≤ 57) ∨ (97 ≤ c.toNat ∧ c.toNat ≤ 122) ∨
      (65 ≤ c.toNat ∧ c.toNat ≤ 90) :=
  toNat_of_digitValue (Option.filter_eq_some_iff.1 h).1

theorem isBlank_of_digit (h : digit? radix c = some d) : isBlank c = false := by
  have hc := toNat_of_digit h
  simp only [isBlank, Bool.or_eq_false_iff, Bool.and_eq_false_iff, decide_eq_false_iff_not,
    beq_eq_false_iff_ne]
  omega

theorem ne_of_digit (h : digit? radix c = some d) {mark : Char} (hmark : mark.toNat < 48) :
    c ≠ mark := by
  have hc := toNat_of_digit h
  rintro rfl
  omega

theorem Spells.digits (h : Spells radix n text) : ∀ c ∈ text, ∃ d, digit? radix c = some d := by
  induction h with
  | digit h => exact List.forall_mem_singleton.2 ⟨_, h⟩
  | more h hc ih =>
    intro c hmem
    rcases List.mem_append.1 hmem with hmem | hmem
    · exact ih c hmem
    · exact List.mem_singleton.1 hmem ▸ ⟨_, hc⟩

theorem Spells.ne_nil (h : Spells radix n text) : text ≠ [] := by
  cases h with
  | digit h => exact List.cons_ne_nil _ _
  | more h hc => exact List.append_ne_nil_of_right_ne_nil _ (List.cons_ne_nil _ _)

theorem digitsAfter_append (value : Nat) (text more : List Char) :
    digitsAfter radix bound value (text ++ more) =
      match digitsAfter radix bound value text with
      | .ok n => digitsAfter radix bound n more
      | .error fault => .error fault := by
  induction text generalizing value with
  | nil => rfl
  | cons c rest ih =>
    rw [List.cons_append, digitsAfter, digitsAfter]
    cases digit? radix c with
    | none => rfl
    | some d =>
      dsimp only
      split
      · exact ih _
      · rfl

/-- What is read so far is never more than the number, so it is below the bound as well. -/
theorem digitsAfter_of_spells (h : Spells radix n text) (hn : n < bound) :
    digitsAfter radix bound 0 text = .ok n := by
  induction h with
  | digit h => simp [digitsAfter, h, hn]
  | @more n d text c h hc ih =>
    have hradix : 0 < radix := Nat.lt_of_le_of_lt (Nat.zero_le d) (digit?_lt hc)
    have hle : n ≤ radix * n := Nat.le_mul_of_pos_left n hradix
    rw [digitsAfter_append, ih (by omega)]
    simp [digitsAfter, hc, hn]

section Reading

/-- Digits that are read spell the number that is read, and it is below the bound. -/
theorem spells_of_digitsAfter (h : digitsAfter radix bound 0 text = .ok n) (hne : text ≠ []) :
    Spells radix n text ∧ n < bound := by
  induction text using List.reverseRecOn generalizing n with
  | nil => exact absurd rfl hne
  | append_singleton front c ih =>
    rw [digitsAfter_append] at h
    cases hfront : digitsAfter radix bound 0 front with
    | error fault =>
      rw [hfront] at h
      cases h
    | ok m =>
      rw [hfront] at h
      dsimp only [digitsAfter] at h
      split at h
      · cases h
      · next d hd =>
        split at h
        · next hbound =>
          cases h
          cases front with
          | nil =>
            cases hfront
            exact ⟨by simpa using Spells.digit hd, hbound⟩
          | cons first others =>
            exact ⟨.more (ih hfront (List.cons_ne_nil _ _)).1 hd, hbound⟩
        · cases h

/-- Digits of a number that is not below the bound are all digits, so it is the number that is
at fault. -/
theorem digitsAfter_of_large (h : Spells radix n text) (hn : bound ≤ n) :
    digitsAfter radix bound 0 text = .error .tooLarge := by
  induction h with
  | @digit c d h =>
    have hcut : ¬ d < bound := Nat.not_lt_of_le hn
    simp [digitsAfter, h, hcut]
  | @more m d front c h hc ih =>
    have hcut : ¬ radix * m + d < bound := Nat.not_lt_of_le hn
    rw [digitsAfter_append]
    by_cases hm : m < bound
    · rw [digitsAfter_of_spells h hm]
      simp [digitsAfter, hc, hcut]
    · rw [ih (Nat.le_of_not_lt hm)]

def Sign (text : List Char) : Prop := text = [] ∨ text = ['+']

variable {sign : List Char}

theorem parse_of_sign (hsign : Sign sign) (h : Spells radix n text) :
    parse radix bound (sign ++ text) = digitsAfter radix bound 0 text := by
  obtain ⟨c, rest, rfl⟩ := List.exists_cons_of_ne_nil h.ne_nil
  obtain ⟨d, hc⟩ := h.digits c List.mem_cons_self
  have hplus : c ≠ '+' := ne_of_digit hc (by decide)
  have hminus : c ≠ '-' := ne_of_digit hc (by decide)
  rcases hsign with rfl | rfl
  · cases rest with
    | nil => simp [parse, hplus, hminus]
    | cons second rest => simp [parse, hplus]
  · rfl

theorem parse_of_spells (h : Spells radix n text) (hn : n < bound) :
    parse radix bound text = .ok n := by
  have hread : parse radix bound ([] ++ text) = _ := parse_of_sign (Or.inl rfl) h
  exact hread.trans (digitsAfter_of_spells h hn)

theorem parse_eq_ok_iff :
    parse radix bound text = .ok n ↔
      (∃ sign digits, Sign sign ∧ Spells radix n digits ∧ text = sign ++ digits) ∧ n < bound := by
  constructor
  · intro h
    match text, h with
    | [], h => cases h
    | [c], h =>
      rw [parse] at h
      split at h
      · cases h
      · obtain ⟨hspells, hn⟩ := spells_of_digitsAfter h (List.cons_ne_nil _ _)
        exact ⟨⟨[], [c], Or.inl rfl, hspells, rfl⟩, hn⟩
    | c :: second :: rest, h =>
      change (if c = '+' then digitsAfter radix bound 0 (second :: rest)
        else digitsAfter radix bound 0 (c :: second :: rest)) = _ at h
      split at h
      · next hplus =>
        obtain ⟨hspells, hn⟩ := spells_of_digitsAfter h (List.cons_ne_nil _ _)
        exact ⟨⟨['+'], second :: rest, Or.inr rfl, hspells, by rw [hplus]; rfl⟩, hn⟩
      · obtain ⟨hspells, hn⟩ := spells_of_digitsAfter h (List.cons_ne_nil _ _)
        exact ⟨⟨[], c :: second :: rest, Or.inl rfl, hspells, rfl⟩, hn⟩
  · rintro ⟨⟨sign, digits, hsign, hspells, rfl⟩, hn⟩
    rw [parse_of_sign hsign hspells, digitsAfter_of_spells hspells hn]

end Reading

/-- A figure of a radix, in either case, and the number below the radix it stands for. -/
def Figure (radix : Nat) (c : Char) (d : Nat) : Prop := d < radix ∧ c.toLower = Nat.digitChar d

/-- Figures, at least one of them, and the number they write with the most significant in front. -/
def Writes (radix n : Nat) (text : List Char) : Prop :=
  text ≠ [] ∧ ∃ values, List.Forall₂ (Figure radix) text values ∧
    Nat.ofDigits radix values.reverse = n

section Figures

theorem toLower_eq_of_le (h : 128 ≤ c.toNat) : c.toLower = c := by
  have hlarge : ¬ (c.val ≥ 'A'.val ∧ c.val ≤ 'Z'.val) := by
    rintro ⟨-, hle⟩
    have hnat : c.val.toNat ≤ 'Z'.val.toNat := hle
    have hval : c.val.toNat = c.toNat := rfl
    have hlast : 'Z'.val.toNat = 90 := rfl
    omega
  exact dif_neg hlarge

theorem toNat_digitChar_lt (h : d < 16) : (Nat.digitChar d).toNat < 128 := by
  have hall : ∀ d < 16, (Nat.digitChar d).toNat < 128 := by decide
  exact hall d h

theorem digitValue?_eq_some_iff (h : d < 16) :
    digitValue? c = some d ↔ c.toLower = Nat.digitChar d := by
  by_cases hc : c.toNat < 128
  · have hall : ∀ k < 128, ∀ d < 16, digitValue? (Char.ofNat k) = some d ↔
        (Char.ofNat k).toLower = Nat.digitChar d := by decide +kernel
    have hone := hall c.toNat hc d h
    rwa [Char.ofNat_toNat] at hone
  · have hlarge : 128 ≤ c.toNat := Nat.le_of_not_lt hc
    rw [toLower_eq_of_le hlarge]
    constructor
    · intro hvalue
      have hrange := toNat_of_digitValue hvalue
      omega
    · rintro rfl
      exact absurd (toNat_digitChar_lt h) hc

theorem digit?_eq_some_iff (hradix : radix ≤ 16) :
    digit? radix c = some d ↔ Figure radix c d := by
  rw [digit?, Option.filter_eq_some_iff, decide_eq_true_iff, Figure, and_comm]
  refine and_congr_right fun hd => ?_
  exact digitValue?_eq_some_iff (Nat.lt_of_lt_of_le hd hradix)

theorem figure_digitChar (hradix : radix ≤ 16) (h : d < radix) :
    Figure radix (Nat.digitChar d) d := by
  have hall : ∀ d < 16, (Nat.digitChar d).toLower = Nat.digitChar d := by decide
  exact ⟨h, hall d (Nat.lt_of_lt_of_le h hradix)⟩

theorem forall₂_of_spells (hradix : radix ≤ 16) (h : Spells radix n text) :
    ∃ values, List.Forall₂ (Figure radix) text values ∧ Nat.ofDigits radix values.reverse = n := by
  induction h with
  | @digit c d h =>
    refine ⟨[d], .cons ((digit?_eq_some_iff hradix).1 h) .nil, ?_⟩
    simp [Nat.ofDigits_cons]
  | @more n d text c h hc ih =>
    obtain ⟨values, hvalues, rfl⟩ := ih
    have hlast : List.Forall₂ (Figure radix) [c] [d] :=
      .cons ((digit?_eq_some_iff hradix).1 hc) .nil
    refine ⟨values ++ [d], List.rel_append hvalues hlast, ?_⟩
    rw [List.reverse_append, List.reverse_singleton, List.singleton_append, Nat.ofDigits_cons,
      Nat.add_comm]

theorem spells_of_forall₂ {reversed : List Char} {values : List Nat} (hradix : radix ≤ 16)
    (h : List.Forall₂ (Figure radix) reversed values) (hne : reversed ≠ []) :
    Spells radix (Nat.ofDigits radix values) reversed.reverse := by
  induction h with
  | nil => exact absurd rfl hne
  | @cons c d reversed values hc h ih =>
    have hd := (digit?_eq_some_iff hradix).2 hc
    rw [Nat.ofDigits_cons, List.reverse_cons, Nat.add_comm]
    cases h with
    | nil => simpa [Nat.ofDigits_nil] using Spells.digit hd
    | cons hfirst hrest => exact .more (ih (List.cons_ne_nil _ _)) hd

theorem spells_iff_writes (hradix : radix ≤ 16) : Spells radix n text ↔ Writes radix n text := by
  constructor
  · intro h
    exact ⟨h.ne_nil, forall₂_of_spells hradix h⟩
  · rintro ⟨hne, values, hvalues, rfl⟩
    have hreversed := List.forall₂_reverse_iff.2 hvalues
    have hspells := spells_of_forall₂ hradix hreversed (by simpa using hne)
    rwa [List.reverse_reverse] at hspells

theorem spells_toDigits (hleast : 1 < radix) (hradix : radix ≤ 16) (n : Nat) :
    Spells radix n (Nat.toDigits radix n) := by
  induction n using Nat.strong_induction_on with
  | _ n ih =>
    by_cases hn : n < radix
    · rw [Nat.toDigits_of_lt_base hn]
      exact .digit ((digit?_eq_some_iff hradix).2 (figure_digitChar hradix hn))
    · have hle : radix ≤ n := Nat.le_of_not_lt hn
      have hpos : 0 < radix := Nat.lt_of_succ_lt hleast
      have hlast := figure_digitChar hradix (Nat.mod_lt n hpos)
      have hless : n / radix < n := Nat.div_lt_self (Nat.lt_of_lt_of_le hpos hle) hleast
      have hmore := Spells.more (ih (n / radix) hless)
        ((digit?_eq_some_iff hradix).2 hlast)
      rw [Nat.div_add_mod] at hmore
      rw [Nat.toDigits_of_base_le hleast hle]
      exact hmore

theorem spells_zeros (hpos : 0 < radix) (count : Nat) :
    Spells radix 0 (List.replicate (count + 1) '0') := by
  have hzero : digit? radix '0' = some 0 := by
    rw [digit?, Option.filter_eq_some_iff]
    exact ⟨rfl, by simpa using hpos⟩
  induction count with
  | zero => exact .digit hzero
  | succ count ih =>
    rw [List.replicate_succ']
    exact .more ih hzero

theorem Spells.append_zeros (hpos : 0 < radix) (h : Spells radix n text) (count : Nat) :
    Spells radix n (List.replicate count '0' ++ text) := by
  induction h with
  | @digit c d hc =>
    cases count with
    | zero => exact .digit hc
    | succ count => simpa using Spells.more (spells_zeros hpos count) hc
  | more h hc ih =>
    rw [← List.append_assoc]
    exact .more ih hc

theorem writes_toDigits (hleast : 1 < radix) (hradix : radix ≤ 16) (n zeros : Nat) :
    Writes radix n (List.replicate zeros '0' ++ Nat.toDigits radix n) := by
  have hspells := spells_toDigits hleast hradix n
  exact (spells_iff_writes hradix).1 (hspells.append_zeros (Nat.lt_of_succ_lt hleast) zeros)

end Figures

def Mark (text : List Char) : Prop := text = ['0', 'x'] ∨ text = ['0', 'X']

/-- A number as it is written: figures to base ten, or figures to base sixteen behind a mark, with
a plus sign in front of them or without it. -/
inductive Written : Nat → List Char → Prop where
  | decimal {n : Nat} {sign digits : List Char} (hsign : Sign sign) (h : Writes 10 n digits) :
      Written n (sign ++ digits)
  | hexadecimal {n : Nat} {mark sign digits : List Char} (hmark : Mark mark) (hsign : Sign sign)
      (h : Writes 16 n digits) : Written n (mark ++ sign ++ digits)

section Marks

variable {mark sign : List Char}

theorem parseMarked_of_mark (hmark : Mark mark) (text : List Char) :
    parseMarked bound (mark ++ text) = parse 16 bound text := by
  rcases hmark with rfl | rfl <;> rfl

/-- No figure to base ten looks like a mark. -/
theorem parseMarked_of_decimal (hsign : Sign sign) (h : Spells 10 n text) :
    parseMarked bound (sign ++ text) = parse 10 bound (sign ++ text) := by
  have hunmarked {x : Char} {rest : List Char} (hx : digit? 10 x = none) :
      sign ++ text ≠ '0' :: x :: rest := by
    intro htext
    rcases hsign with rfl | rfl
    · have hmem : x ∈ text := by
        rw [List.nil_append] at htext
        exact htext ▸ List.mem_cons_of_mem _ List.mem_cons_self
      obtain ⟨d, hd⟩ := h.digits x hmem
      cases hx.symm.trans hd
    · cases htext
  unfold parseMarked
  split
  · next htext => exact absurd htext (hunmarked rfl)
  · next htext => exact absurd htext (hunmarked rfl)
  · rfl

theorem parseMarked_eq_ok_iff :
    parseMarked bound text = .ok n ↔ Written n text ∧ n < bound := by
  have hexadecimal {mark rest : List Char} (hmark : Mark mark)
      (h : parse 16 bound rest = .ok n) : Written n (mark ++ rest) ∧ n < bound := by
    obtain ⟨⟨sign, digits, hsign, hspells, rfl⟩, hn⟩ := parse_eq_ok_iff.1 h
    have hwrites := (spells_iff_writes (Nat.le_refl 16)).1 hspells
    exact ⟨List.append_assoc mark sign digits ▸ .hexadecimal hmark hsign hwrites, hn⟩
  constructor
  · intro h
    unfold parseMarked at h
    split at h
    · exact hexadecimal (Or.inl rfl) h
    · exact hexadecimal (Or.inr rfl) h
    · obtain ⟨⟨sign, digits, hsign, hspells, rfl⟩, hn⟩ := parse_eq_ok_iff.1 h
      exact ⟨.decimal hsign ((spells_iff_writes (by decide)).1 hspells), hn⟩
  · rintro ⟨hwritten, hn⟩
    cases hwritten with
    | decimal hsign h =>
      have hspells := (spells_iff_writes (by decide)).2 h
      rw [parseMarked_of_decimal hsign hspells, parse_eq_ok_iff]
      exact ⟨⟨_, _, hsign, hspells, rfl⟩, hn⟩
    | hexadecimal hmark hsign h =>
      have hspells := (spells_iff_writes (Nat.le_refl 16)).2 h
      rw [List.append_assoc, parseMarked_of_mark hmark, parse_eq_ok_iff]
      exact ⟨⟨_, _, hsign, hspells, rfl⟩, hn⟩

theorem parseMarked_of_large (h : Written n text) (hn : bound ≤ n) :
    parseMarked bound text = .error .tooLarge := by
  cases h with
  | decimal hsign h =>
    have hspells := (spells_iff_writes (by decide)).2 h
    rw [parseMarked_of_decimal hsign hspells, parse_of_sign hsign hspells,
      digitsAfter_of_large hspells hn]
  | hexadecimal hmark hsign h =>
    have hspells := (spells_iff_writes (Nat.le_refl 16)).2 h
    rw [List.append_assoc, parseMarked_of_mark hmark, parse_of_sign hsign hspells,
      digitsAfter_of_large hspells hn]

theorem written_decimal (n zeros : Nat) :
    Written n (List.replicate zeros '0' ++ Nat.toDigits 10 n) := by
  have hwrites : Writes 10 n (List.replicate zeros '0' ++ Nat.toDigits 10 n) :=
    writes_toDigits (by decide) (by decide) n zeros
  have hwritten : Written n ([] ++ _) := .decimal (Or.inl rfl) hwrites
  exact hwritten

theorem written_hexadecimal (n zeros : Nat) :
    Written n ('0' :: 'x' :: (List.replicate zeros '0' ++ Nat.toDigits 16 n)) := by
  have hwrites : Writes 16 n (List.replicate zeros '0' ++ Nat.toDigits 16 n) :=
    writes_toDigits (by decide) (Nat.le_refl 16) n zeros
  have hwritten : Written n (['0', 'x'] ++ [] ++ _) :=
    .hexadecimal (Or.inl rfl) (Or.inl rfl) hwrites
  exact hwritten

end Marks

end Numeral
end Text
end InstrumentBus
