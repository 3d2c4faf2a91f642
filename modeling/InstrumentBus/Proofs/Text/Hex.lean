import InstrumentBus.Proofs.Text.Lines
import InstrumentBus.Proofs.Text.Numeral
import InstrumentBus.Text.Hex

/-!
# Hexadecimal text read back

Two digits in either case spell a byte. Digits with blanks and colons between them are read as the
bytes they spell, with the mark in front or without it. So the text that bytes are written as is
read as the same bytes, and blanks behind it, such as the end of a printed line, do not matter. What
is left of any other text has an odd number of bytes, or a first byte that is no digit.
-/

namespace InstrumentBus
namespace Text
namespace Hex

/-- Two digits for each byte, the more significant one first. -/
inductive Spells : List UInt8 → List Char → Prop where
  | nil : Spells [] []
  | cons {a b : Char} {high low : Nat} {bytes : List UInt8} {text : List Char}
      (ha : Numeral.digit? 16 a = some high) (hb : Numeral.digit? 16 b = some low)
      (h : Spells bytes text) : Spells (UInt8.ofNat (16 * high + low) :: bytes) (a :: b :: text)

/-- A character that is read. The others are blanks and colons, which separate digits. -/
def counts (c : Char) : Bool := !isBlank c && c != ':'

/-- What may stand in front of the digits: nothing, or the mark. -/
def Mark (text : List Char) : Prop := text = [] ∨ text = ['0', 'x']

/-- The bytes that are digits: figures and the first letters of the alphabet, in either case. -/
def DigitByte (byte : UInt8) : Prop :=
  (48 ≤ byte.toNat ∧ byte.toNat ≤ 57) ∨ (65 ≤ byte.toNat ∧ byte.toNat ≤ 70) ∨
    (97 ≤ byte.toNat ∧ byte.toNat ≤ 102)

instance : DecidablePred DigitByte := fun _ => inferInstanceAs (Decidable (_ ∨ _))

theorem isSome_nibble?_iff {byte : UInt8} : (nibble? byte).isSome = true ↔ DigitByte byte := by
  have hall : ∀ n < 256, (Numeral.digit? 16 (Char.ofNat n)).isSome = true ↔
      (48 ≤ n ∧ n ≤ 57) ∨ (65 ≤ n ∧ n ≤ 70) ∨ (97 ≤ n ∧ n ≤ 102) := by decide +kernel
  exact hall byte.toNat byte.toNat_lt

section Digits

variable {c : Char} {d : Nat}

theorem utf8EncodeChar_of_le (h : c.toNat ≤ 127) :
    String.utf8EncodeChar c = [UInt8.ofNat c.toNat] := if_pos h

theorem nibble?_ofNat (h : c.toNat ≤ 127) :
    nibble? (UInt8.ofNat c.toNat) = Numeral.digit? 16 c := by
  have hbyte : (UInt8.ofNat c.toNat).toNat = c.toNat :=
    UInt8.toNat_ofNat_of_lt' (show c.toNat < 256 by omega)
  rw [nibble?, byteChar, hbyte, Char.ofNat_toNat]

theorem utf8_cons_of_digit (h : Numeral.digit? 16 c = some d) (text : List Char) :
    ∃ byte, utf8 (c :: text) = byte :: utf8 text ∧ nibble? byte = some d := by
  have hc := Numeral.toNat_of_digit h
  have hsmall : c.toNat ≤ 127 := by omega
  refine ⟨UInt8.ofNat c.toNat, ?_, (nibble?_ofNat hsmall).trans h⟩
  rw [utf8, List.flatMap_cons, utf8EncodeChar_of_le hsmall]
  rfl

/-- The first byte of a character beyond these is larger than any of them. -/
theorem exists_large_of_lt (h : 127 < c.toNat) :
    ∃ byte ∈ String.utf8EncodeChar c, 128 ≤ byte.toNat := by
  have hbeyond : ¬ c.val.toNat ≤ 127 := Nat.not_le_of_lt h
  simp only [String.utf8EncodeChar, if_neg hbeyond]
  split
  · exact ⟨_, List.mem_cons_self, by rw [UInt8.toNat_ofNat']; omega⟩
  · split
    · exact ⟨_, List.mem_cons_self, by rw [UInt8.toNat_ofNat']; omega⟩
    · exact ⟨_, List.mem_cons_self, by rw [UInt8.toNat_ofNat']; omega⟩

theorem exists_digit_of_bytes (h : ∀ byte ∈ String.utf8EncodeChar c, DigitByte byte) :
    ∃ d, Numeral.digit? 16 c = some d := by
  have hsmall : c.toNat ≤ 127 := by
    refine Nat.le_of_not_lt fun hlarge => ?_
    obtain ⟨byte, hmem, hbyte⟩ := exists_large_of_lt hlarge
    have hdigit := h byte hmem
    unfold DigitByte at hdigit
    omega
  rw [utf8EncodeChar_of_le hsmall] at h
  have hnibble := isSome_nibble?_iff.2 (h _ List.mem_cons_self)
  rwa [nibble?_ofNat hsmall, Option.isSome_iff_exists] at hnibble

theorem length_utf8_of_digits {text : List Char}
    (h : ∀ c ∈ text, ∃ d, Numeral.digit? 16 c = some d) : (utf8 text).length = text.length := by
  induction text with
  | nil => rfl
  | cons c rest ih =>
    obtain ⟨⟨d, hd⟩, hrest⟩ := List.forall_mem_cons.1 h
    obtain ⟨byte, hutf8, -⟩ := utf8_cons_of_digit hd rest
    rw [hutf8, List.length_cons, List.length_cons, ih hrest]

theorem counts_of_digit (h : Numeral.digit? 16 c = some d) : counts c = true := by
  have hcolon : c ≠ ':' := by
    have hc := Numeral.toNat_of_digit h
    rintro rfl
    simp at hc
  simp [counts, Numeral.isBlank_of_digit h, hcolon]

theorem ne_mark_of_digit (h : Numeral.digit? 16 c = some d) : c ≠ 'x' := by
  rintro rfl
  cases h

end Digits

namespace Spells

variable {bytes : List UInt8} {text : List Char}

theorem digits (h : Spells bytes text) : ∀ c ∈ text, ∃ d, Numeral.digit? 16 c = some d := by
  induction h with
  | nil => exact List.forall_mem_nil _
  | cons ha hb h ih => exact List.forall_mem_cons.2 ⟨⟨_, ha⟩, List.forall_mem_cons.2 ⟨⟨_, hb⟩, ih⟩⟩

theorem ne_nil (h : Spells bytes text) (hne : bytes ≠ []) : text ≠ [] := by
  cases h with
  | nil => exact absurd rfl hne
  | cons ha hb h => exact List.cons_ne_nil _ _

theorem digit_of_mem {c : Char} (h : Spells bytes (text.filter counts)) (hmem : c ∈ text)
    (hc : counts c = true) : ∃ d, Numeral.digit? 16 c = some d :=
  h.digits c (List.mem_filter.2 ⟨hmem, hc⟩)

theorem exists_digit (h : Spells bytes (text.filter counts)) (hne : bytes ≠ []) :
    ∃ c ∈ text, ∃ d, Numeral.digit? 16 c = some d := by
  obtain ⟨c, hc⟩ := List.exists_mem_of_ne_nil _ (h.ne_nil hne)
  exact ⟨c, (List.mem_filter.1 hc).1, h.digits c hc⟩

theorem length_eq (h : Spells bytes text) : text.length = 2 * bytes.length := by
  induction h with
  | nil => rfl
  | cons ha hb h ih =>
    rw [List.length_cons, List.length_cons, List.length_cons, ih]
    omega

theorem even_length (h : Spells bytes text) : (utf8 text).length % 2 = 0 := by
  rw [length_utf8_of_digits h.digits, h.length_eq, Nat.mul_mod_right]

theorem decodePairs (h : Spells bytes text) (index : Nat) :
    Hex.decodePairs index (utf8 text) = .ok bytes := by
  induction h generalizing index with
  | nil => rfl
  | @cons a b high low bytes text ha hb h ih =>
    obtain ⟨first, hfirst, hhigh⟩ := utf8_cons_of_digit ha (b :: text)
    obtain ⟨second, hsecond, hlow⟩ := utf8_cons_of_digit hb text
    simp only [hfirst, hsecond, Hex.decodePairs, hhigh, hlow, ih]

theorem decodeStrict (h : Spells bytes text) : Hex.decodeStrict text = .ok bytes := by
  rw [Hex.decodeStrict, if_neg (Decidable.not_not.2 h.even_length), h.decodePairs]

end Spells

/-- Digits spell bytes exactly if they are, but for the case of letters, what the bytes are written
as. -/
theorem spells_iff {bytes : List UInt8} {text : List Char} :
    Spells bytes text ↔ text.map Char.toLower = encode bytes := by
  have hfigure {c : Char} {d : Nat} : Numeral.digit? 16 c = some d ↔ Numeral.Figure 16 c d :=
    Numeral.digit?_eq_some_iff (Nat.le_refl 16)
  constructor
  · intro h
    induction h with
    | nil => rfl
    | @cons a b high low bytes text ha hb h ih =>
      obtain ⟨hhigh, ha⟩ := hfigure.1 ha
      obtain ⟨hlow, hb⟩ := hfigure.1 hb
      have hbyte : (UInt8.ofNat (16 * high + low)).toNat = 16 * high + low :=
        UInt8.toNat_ofNat_of_lt' (show 16 * high + low < 256 by omega)
      have hdiv : (16 * high + low) / 16 = high := by omega
      have hmod : (16 * high + low) % 16 = low := by omega
      rw [List.map_cons, List.map_cons, ih, ha, hb, encode_cons, pair, hbyte, hdiv, hmod]
      rfl
  · intro h
    induction bytes generalizing text with
    | nil =>
      rw [List.map_eq_nil_iff.1 h]
      exact .nil
    | cons byte rest ih =>
      obtain ⟨a, others, rfl, ha, h⟩ := List.map_eq_cons_iff.1 h
      obtain ⟨b, others, rfl, hb, h⟩ := List.map_eq_cons_iff.1 h
      have hlt : byte.toNat < 256 := byte.toNat_lt
      have hhigh := hfigure.2 ⟨show byte.toNat / 16 < 16 by omega, ha⟩
      have hlow := hfigure.2 ⟨show byte.toNat % 16 < 16 by omega, hb⟩
      have hspells := Spells.cons hhigh hlow (ih h)
      rwa [Nat.div_add_mod, UInt8.ofNat_toNat] at hspells

theorem map_toLower_encode (bytes : List UInt8) :
    (encode bytes).map Char.toLower = encode bytes := by
  have hdigit {n : Nat} (h : n < 16) : (digit n).toLower = digit n :=
    (Numeral.figure_digitChar (Nat.le_refl 16) h).2
  induction bytes with
  | nil => rfl
  | cons byte rest ih =>
    have hlt : byte.toNat < 256 := byte.toNat_lt
    have hhigh := hdigit (show byte.toNat / 16 < 16 by omega)
    have hlow := hdigit (show byte.toNat % 16 < 16 by omega)
    rw [encode_cons, List.map_append, ih, pair, List.map_cons, List.map_singleton, hhigh, hlow]

theorem spells_encode (bytes : List UInt8) : Spells bytes (encode bytes) :=
  spells_iff.2 (map_toLower_encode bytes)

section Faults

theorem exists_spells {text : List Char} (h : ∀ c ∈ text, ∃ d, Numeral.digit? 16 c = some d)
    (heven : text.length % 2 = 0) : ∃ bytes, Spells bytes text := by
  induction text using List.twoStepInduction with
  | nil => exact ⟨[], .nil⟩
  | singleton c => cases heven
  | cons_cons a b rest ih _ =>
    obtain ⟨⟨high, ha⟩, hrest⟩ := List.forall_mem_cons.1 h
    obtain ⟨⟨low, hb⟩, hrest⟩ := List.forall_mem_cons.1 hrest
    have hlength : rest.length % 2 = 0 := by
      rw [List.length_cons, List.length_cons] at heven
      omega
    obtain ⟨bytes, hspells⟩ := ih hrest hlength
    exact ⟨_, .cons ha hb hspells⟩

/-- Pairs are read up to the first byte that is no digit, which may stand at either place of its
pair. -/
theorem decodePairs_of_bad {before after : List UInt8} {byte : UInt8} (index : Nat)
    (hbefore : ∀ b ∈ before, DigitByte b) (hbyte : ¬ DigitByte byte)
    (heven : (before ++ byte :: after).length % 2 = 0) :
    decodePairs index (before ++ byte :: after) =
      .error (.badDigit byte (index + before.length)) := by
  have hnone : nibble? byte = none := by
    rw [← Option.not_isSome_iff_eq_none, isSome_nibble?_iff]
    exact hbyte
  have hsome {b : UInt8} (h : DigitByte b) : ∃ d, nibble? b = some d :=
    Option.isSome_iff_exists.1 (isSome_nibble?_iff.2 h)
  induction before using List.twoStepInduction generalizing index with
  | nil =>
    cases after with
    | nil => cases heven
    | cons next after =>
      simp only [List.nil_append, decodePairs, hnone, List.length_nil, Nat.add_zero]
  | singleton a =>
    obtain ⟨high, ha⟩ := hsome (hbefore a List.mem_cons_self)
    simp only [List.cons_append, List.nil_append, decodePairs, ha, hnone, List.length_singleton]
  | cons_cons a b rest ih _ =>
    obtain ⟨ha, hrest⟩ := List.forall_mem_cons.1 hbefore
    obtain ⟨hb, hrest⟩ := List.forall_mem_cons.1 hrest
    obtain ⟨high, ha⟩ := hsome ha
    obtain ⟨low, hb⟩ := hsome hb
    have hlength : (rest ++ byte :: after).length % 2 = 0 := by
      rw [List.cons_append, List.cons_append, List.length_cons, List.length_cons] at heven
      omega
    have hplace : index + 2 + rest.length = index + (a :: b :: rest).length := by
      rw [List.length_cons, List.length_cons]
      omega
    simp only [List.cons_append, decodePairs, ha, hb, ih (index + 2) hrest hlength, hplace]

/-- What is at fault in a text: the number of its bytes is odd, or else it has a first byte that is
no digit. -/
inductive Faulty (text : List Char) : Fault → Prop where
  | oddLength (h : (utf8 text).length % 2 = 1) : Faulty text .oddLength
  | badDigit {before after : List UInt8} {byte : UInt8} (heven : (utf8 text).length % 2 = 0)
      (hutf8 : utf8 text = before ++ byte :: after) (hbefore : ∀ b ∈ before, DigitByte b)
      (hbyte : ¬ DigitByte byte) : Faulty text (.badDigit byte before.length)

variable {text : List Char} {bytes : List UInt8} {fault : Fault}

theorem decodeStrict_of_faulty (h : Faulty text fault) : decodeStrict text = .error fault := by
  cases h with
  | oddLength h =>
    have hodd : (utf8 text).length % 2 ≠ 0 := by omega
    rw [decodeStrict, if_pos hodd]
  | @badDigit before after byte heven hutf8 hbefore hbyte =>
    rw [decodeStrict, if_neg (Decidable.not_not.2 heven), hutf8,
      decodePairs_of_bad 0 hbefore hbyte (hutf8 ▸ heven), Nat.zero_add]

theorem spells_or_faulty (text : List Char) :
    (∃ bytes, Spells bytes text) ∨ ∃ fault, Faulty text fault := by
  rcases Nat.mod_two_eq_zero_or_one (utf8 text).length with heven | hodd
  · cases hbad : (utf8 text).find? fun byte => !decide (DigitByte byte) with
    | none =>
      have hdigits : ∀ c ∈ text, ∃ d, Numeral.digit? 16 c = some d := by
        intro c hc
        refine exists_digit_of_bytes fun byte hbyte => ?_
        have hmem : byte ∈ utf8 text := List.mem_flatMap.2 ⟨c, hc, hbyte⟩
        simpa using List.find?_eq_none.1 hbad byte hmem
      exact Or.inl (exists_spells hdigits (length_utf8_of_digits hdigits ▸ heven))
    | some byte =>
      obtain ⟨hbyte, before, after, hutf8, hbefore⟩ := List.find?_eq_some_iff_append.1 hbad
      have hfirst : ∀ b ∈ before, DigitByte b := by
        intro b hb
        simpa using hbefore b hb
      have hnone : ¬ DigitByte byte := by simpa using hbyte
      exact Or.inr ⟨_, .badDigit heven hutf8 hfirst hnone⟩
  · exact Or.inr ⟨_, .oddLength hodd⟩

theorem decodeStrict_eq_ok_iff : decodeStrict text = .ok bytes ↔ Spells bytes text := by
  refine ⟨fun h => ?_, fun h => h.decodeStrict⟩
  rcases spells_or_faulty text with ⟨found, hspells⟩ | ⟨fault, hfaulty⟩
  · rw [hspells.decodeStrict] at h
    cases h
    exact hspells
  · rw [decodeStrict_of_faulty hfaulty] at h
    cases h

theorem decodeStrict_eq_error_iff : decodeStrict text = .error fault ↔ Faulty text fault := by
  refine ⟨fun h => ?_, decodeStrict_of_faulty⟩
  rcases spells_or_faulty text with ⟨bytes, hspells⟩ | ⟨found, hfaulty⟩
  · rw [hspells.decodeStrict] at h
    cases h
  · rw [decodeStrict_of_faulty hfaulty] at h
    cases h
    exact hfaulty

end Faults

section Reading

variable {bytes : List UInt8} {margin mark body : List Char}

theorem counts_of_blank {c : Char} (h : isBlank c = true) : counts c = false := by
  simp [counts, h]

theorem filter_trimStart (text : List Char) :
    (trimStart text).filter counts = text.filter counts := by
  induction text with
  | nil => rfl
  | cons c rest ih =>
    cases hc : isBlank c with
    | true =>
      rw [trimStart, List.dropWhile_cons_of_pos hc, List.filter_cons_of_neg]
      · exact ih
      · simp [counts_of_blank hc]
    | false => rw [trimStart_of_head hc]

theorem filter_trimEnd (text : List Char) : (trimEnd text).filter counts = text.filter counts := by
  have hreverse := filter_trimStart text.reverse
  rw [trimStart, List.filter_reverse] at hreverse
  rw [trimEnd, List.filter_reverse, hreverse, List.reverse_reverse]

theorem filter_append_margin (hmargin : ∀ c ∈ margin, isBlank c = true) (text : List Char) :
    (text ++ margin).filter counts = text.filter counts := by
  have hblank : margin.filter counts = [] := by
    rw [List.filter_eq_nil_iff]
    intro c hc
    simp [counts_of_blank (hmargin c hc)]
  rw [List.filter_append, hblank, List.append_nil]

theorem dropMark_of_plain {text : List Char} (h : ¬ ['0', 'x'] <+: text) :
    dropMark text = text := by
  unfold dropMark
  split
  · exact absurd (List.prefix_append ['0', 'x'] _) h
  · rfl

theorem dropMark_of_not_mem {text : List Char} (h : 'x' ∉ text.tail) : dropMark text = text := by
  refine dropMark_of_plain ?_
  rintro ⟨rest, rfl⟩
  exact h List.mem_cons_self

/-- Where a text ends does not matter to what is left of it. -/
theorem digitsOf_eq_trimStart (text : List Char) :
    digitsOf text = (dropMark (trimStart text)).filter counts := by
  change (dropMark (trimEnd (trimStart text))).filter counts = _
  by_cases h : ['0', 'x'] <+: trimStart text
  · obtain ⟨rest, hrest⟩ := h
    have hkept : trimEnd (['0', 'x'] ++ rest) = '0' :: 'x' :: trimEnd rest :=
      trimEnd_append_cons (c := 'x') rfl ['0'] rest
    rw [← hrest, hkept]
    exact filter_trimEnd rest
  · obtain ⟨back, hback, -⟩ := exists_trimEnd_append (trimStart text)
    have hshort : ¬ ['0', 'x'] <+: trimEnd (trimStart text) := by
      intro hmark
      exact h (hback ▸ hmark.trans (List.prefix_append _ _))
    rw [dropMark_of_plain h, dropMark_of_plain hshort, filter_trimEnd]

/-- What follows is left but for its separators, unless it may complete the mark. -/
theorem digitsOf_append {before rest : List Char}
    (hplace : 'x' ∈ rest → ¬ trimStart before <+: ['0']) :
    digitsOf (before ++ rest) = digitsOf before ++ rest.filter counts := by
  have happend : trimStart (before ++ rest) =
      if (trimStart before).isEmpty then trimStart rest else trimStart before ++ rest :=
    List.dropWhile_append
  rw [digitsOf_eq_trimStart, digitsOf_eq_trimStart, happend]
  rcases hbefore : trimStart before with _ | ⟨a, _ | ⟨b, more⟩⟩
  · have hplain : 'x' ∉ rest := fun hmem => hplace hmem (hbefore ▸ List.nil_prefix)
    have hstart : 'x' ∉ (trimStart rest).tail := fun hmem =>
      hplain ((List.dropWhile_sublist isBlank).mem (List.mem_of_mem_tail hmem))
    rw [List.isEmpty_nil, if_pos rfl, dropMark_of_not_mem hstart, filter_trimStart]
    rfl
  · have hplain : ¬ ['0', 'x'] <+: [a] ++ rest := by
      rintro ⟨_, hmark⟩
      cases hmark
      exact hplace List.mem_cons_self (hbefore ▸ List.prefix_refl _)
    have hfirst : dropMark [a] = [a] := dropMark_of_not_mem List.not_mem_nil
    rw [List.isEmpty_cons, if_neg Bool.false_ne_true, dropMark_of_plain hplain, hfirst,
      List.filter_append]
  · have hmore : dropMark (a :: b :: more ++ rest) = dropMark (a :: b :: more) ++ rest := by
      by_cases hmark : a = '0' ∧ b = 'x'
      · obtain ⟨rfl, rfl⟩ := hmark
        rfl
      · have hplain (text : List Char) : ¬ ['0', 'x'] <+: a :: b :: text := by
          rintro ⟨_, hsame⟩
          cases hsame
          exact hmark ⟨rfl, rfl⟩
        rw [List.cons_append, List.cons_append, dropMark_of_plain (hplain _),
          dropMark_of_plain (hplain _)]
        rfl
    rw [List.isEmpty_cons, if_neg Bool.false_ne_true, hmore, List.filter_append]

/-- Separators change nothing, unless they part the mark or stand in front of it. -/
theorem digitsOf_insert {before separators after : List Char}
    (hseparators : ∀ c ∈ separators, counts c = false)
    (hplace : 'x' ∈ after → ¬ trimStart before <+: ['0']) :
    digitsOf (before ++ separators ++ after) = digitsOf (before ++ after) := by
  have hnone : separators.filter counts = [] := by
    rw [List.filter_eq_nil_iff]
    intro c hc
    simp [hseparators c hc]
  have hmarked : 'x' ∈ separators ++ after → ¬ trimStart before <+: ['0'] := by
    intro hmem
    rcases List.mem_append.1 hmem with hmem | hmem
    · cases hseparators _ hmem
    · exact hplace hmem
  rw [List.append_assoc, digitsOf_append hmarked, digitsOf_append hplace, List.filter_append, hnone,
    List.nil_append]

theorem digitsOf_eq (hmargin : ∀ c ∈ margin, isBlank c = true) (hmark : Mark mark)
    (hbody : 'x' ∉ body) : digitsOf (margin ++ mark ++ body) = body.filter counts := by
  have hfront : digitsOf (margin ++ mark) = [] := by
    rw [digitsOf_eq_trimStart, trimStart_of_blank hmargin]
    rcases hmark with rfl | rfl <;> rfl
  rw [digitsOf_append fun hmem => absurd hmem hbody, hfront, List.nil_append]

/-- What is left of a text: what stands behind the mark, or all of it where there is none, without
the blanks and colons. -/
inductive Leaves (text : List Char) : List Char → Prop where
  | marked {body : List Char} (h : Trimmed text ('0' :: 'x' :: body)) :
      Leaves text (body.filter counts)
  | plain {body : List Char} (h : Trimmed text body) (hplain : ¬ ['0', 'x'] <+: body) :
      Leaves text (body.filter counts)

theorem leaves_iff {text digits : List Char} : Leaves text digits ↔ digits = digitsOf text := by
  constructor
  · intro h
    cases h with
    | marked h => rw [digitsOf, ← trimmed_iff.1 h]; rfl
    | plain h hplain => rw [digitsOf, ← trimmed_iff.1 h, dropMark_of_plain hplain]; rfl
  · rintro rfl
    by_cases h : ['0', 'x'] <+: trim text
    · obtain ⟨body, hbody⟩ := h
      rw [digitsOf, ← hbody]
      exact .marked (trimmed_iff.2 hbody)
    · rw [digitsOf, dropMark_of_plain h]
      exact .plain (trimmed_trim text) h

theorem decode_of_spells (hmargin : ∀ c ∈ margin, isBlank c = true) (hmark : Mark mark)
    (h : Spells bytes (body.filter counts)) : decode (margin ++ mark ++ body) = .ok bytes := by
  have hbody : 'x' ∉ body := by
    intro hmem
    obtain ⟨d, hd⟩ := h.digit_of_mem hmem rfl
    exact ne_mark_of_digit hd rfl
  rw [decode, digitsOf_eq hmargin hmark hbody, h.decodeStrict]

theorem decode_encode (bytes : List UInt8) (hmargin : ∀ c ∈ margin, isBlank c = true) :
    decode (encode bytes ++ margin) = .ok bytes := by
  have hspells := spells_encode bytes
  have hfilter : (encode bytes ++ margin).filter counts = encode bytes := by
    have hdigits : (encode bytes).filter counts = encode bytes := by
      rw [List.filter_eq_self]
      intro c hc
      obtain ⟨d, hd⟩ := hspells.digits c hc
      exact counts_of_digit hd
    rw [filter_append_margin hmargin, hdigits]
  have hdecoded : decode ([] ++ [] ++ (encode bytes ++ margin)) = .ok bytes :=
    decode_of_spells (List.forall_mem_nil _) (Or.inl rfl) (hfilter.symm ▸ hspells)
  exact hdecoded

end Reading

end Hex
end Text
end InstrumentBus
