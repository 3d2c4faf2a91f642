import InstrumentBus.Command.Operand
import InstrumentBus.Proofs.Text.Hex
import InstrumentBus.Proofs.Text.Numeral

/-!
# Operands read exactly

A number is read from an operand exactly if it is written there and fits what it is read as. No
number is taken for another one, however many zeros stand in front of it.

Bytes are read from an operand exactly if what is left of it spells them. Any other operand is
refused for its odd length, or else for the first byte that is no digit.
-/

namespace InstrumentBus
namespace Command

open Text

section Numbers

variable {what : String} {bound n : Nat} {text : List Char}

theorem readNumeral_eq_ok_iff :
    readNumeral what bound text = .ok n ↔ Numeral.Written n text ∧ n < bound := by
  rw [← Numeral.parseMarked_eq_ok_iff, readNumeral]
  cases Numeral.parseMarked bound text <;> simp

theorem map_readNumeral_eq_ok_iff {α : Type} {ofNat : Nat → α} {toNat : α → Nat}
    (hsame : ∀ m < bound, toNat (ofNat m) = m) :
    ((readNumeral what bound text).map ofNat).map toNat = .ok n ↔
      Numeral.Written n text ∧ n < bound := by
  have hiff : readNumeral what bound text = .ok n ↔ _ := readNumeral_eq_ok_iff
  rw [← hiff]
  cases hread : readNumeral what bound text with
  | error message => simp [Except.map]
  | ok found =>
    have hfits : found < bound := (readNumeral_eq_ok_iff.1 hread).2
    simp only [Except.map, hsame found hfits]

theorem readByte_eq_ok_iff :
    (readByte text).map UInt8.toNat = .ok n ↔ Numeral.Written n text ∧ n < 0x100 :=
  map_readNumeral_eq_ok_iff fun _ hm => UInt8.toNat_ofNat_of_lt' hm

theorem readWord_eq_ok_iff :
    (readWord text).map UInt32.toNat = .ok n ↔ Numeral.Written n text ∧ n < 0x100000000 :=
  map_readNumeral_eq_ok_iff fun _ hm => UInt32.toNat_ofNat_of_lt' hm

theorem readWord_of_written {n : UInt32} (h : Numeral.Written n.toNat text) :
    readWord text = .ok n := by
  have hread : readNumeral "integer" 0x100000000 text = .ok n.toNat :=
    readNumeral_eq_ok_iff.2 ⟨h, n.toNat_lt⟩
  rw [readWord, hread]
  exact congrArg Except.ok (UInt32.ofNat_toNat)

theorem readNumeral_of_large (h : Numeral.Written n text) (hn : bound ≤ n) :
    readNumeral what bound text = .error ("invalid " ++ what ++ " " ++ quote text ++ ": " ++
      "number too large to fit in target type") := by
  rw [readNumeral, Numeral.parseMarked_of_large h hn]
  exact rfl

/-- A word is read exactly if it is written, and a byte exactly if it is a word that fits a byte. A
number is read back from the text it is printed as, also with zeros in front, and a number that is
too large is refused. -/
theorem numbers_read_exactly :
    (∀ (text : List Char) (n : Nat),
      (readByte text).map UInt8.toNat = .ok n ↔
        (readWord text).map UInt32.toNat = .ok n ∧ n ≤ 255) ∧
    (∀ (text : List Char) (n : Nat),
      (readWord text).map UInt32.toNat = .ok n ↔
        Numeral.Written n text ∧ n < 0x100000000) ∧
    (∀ (n : UInt32) (zeros : Nat),
      readWord (List.replicate zeros '0' ++ Nat.toDigits 10 n.toNat) = .ok n ∧
      readWord ('0' :: 'x' :: (List.replicate zeros '0' ++ Nat.toDigits 16 n.toNat)) = .ok n) ∧
    ∀ {text : List Char} {n : Nat}, Numeral.Written n text →
      (0x100 ≤ n → readByte text = .error ("invalid byte " ++ quote text ++ ": " ++
        "number too large to fit in target type")) ∧
      (0x100000000 ≤ n → readWord text = .error ("invalid integer " ++ quote text ++ ": " ++
        "number too large to fit in target type")) := by
  refine ⟨?_, fun text n => readWord_eq_ok_iff, ?_, ?_⟩
  · intro text n
    rw [readByte_eq_ok_iff, readWord_eq_ok_iff, and_assoc]
    refine and_congr_right fun _ => ?_
    omega
  · intro n zeros
    exact ⟨readWord_of_written (Numeral.written_decimal n.toNat zeros),
      readWord_of_written (Numeral.written_hexadecimal n.toNat zeros)⟩
  · intro text n hwritten
    constructor
    · intro hlarge
      have hwhat : "invalid " ++ "byte" ++ " " = "invalid byte " := by decide
      rw [readByte, readNumeral_of_large hwritten hlarge, hwhat]
      rfl
    · intro hlarge
      have hwhat : "invalid " ++ "integer" ++ " " = "invalid integer " := by decide
      rw [readWord, readNumeral_of_large hwritten hlarge, hwhat]
      rfl

/-- The least number that is too large for a word, behind a mark and with a plus sign. -/
def sampleNumber : List Char := ['0', 'X', '+', '1', '0', '0', '0', '0', '0', '0', '0', '0']

theorem sampleNumber_refused :
    Numeral.Written 0x100000000 sampleNumber ∧ 0x100 ≤ 0x100000000 ∧
      (∃ message, readByte sampleNumber = .error message) ∧
      ∃ message, readWord sampleNumber = .error message := by
  have hone : Numeral.Figure 16 '1' 1 := ⟨by decide, rfl⟩
  have hzero : Numeral.Figure 16 '0' 0 := ⟨by decide, rfl⟩
  have hfigures : List.Forall₂ (Numeral.Figure 16) ['1', '0', '0', '0', '0', '0', '0', '0', '0']
      [1, 0, 0, 0, 0, 0, 0, 0, 0] := by
    simp only [List.forall₂_cons, hone, hzero, List.Forall₂.nil, and_self]
  have hwrites : Numeral.Writes 16 0x100000000 ['1', '0', '0', '0', '0', '0', '0', '0', '0'] :=
    ⟨List.cons_ne_nil _ _, _, hfigures, by decide⟩
  have hmark : Numeral.Mark ['0', 'X'] := Or.inr rfl
  have hplus : Numeral.Sign ['+'] := Or.inr rfl
  have hwritten : Numeral.Written 0x100000000 sampleNumber := .hexadecimal hmark hplus hwrites
  obtain ⟨hbyte, hword⟩ := numbers_read_exactly.2.2.2 hwritten
  exact ⟨hwritten, by decide, ⟨_, hbyte (by decide)⟩, ⟨_, hword (Nat.le_refl _)⟩⟩

end Numbers

section Bytes

variable {text digits : List Char}

theorem readHex_eq_ok_iff {bytes : List UInt8} (h : Hex.Leaves text digits) :
    readHex text = .ok bytes ↔ digits.map Char.toLower = Hex.encode bytes := by
  rw [← Hex.spells_iff, ← Hex.decodeStrict_eq_ok_iff, Hex.leaves_iff.1 h, readHex, Hex.decode]
  cases Hex.decodeStrict (Hex.digitsOf text) <;> simp

theorem readHex_eq_error_iff {failure : Failure} (h : Hex.Leaves text digits) :
    readHex text = .error failure ↔
      ∃ fault, Hex.Faulty digits fault ∧ failure = ⟨Failure.invalidData, hexMessage fault⟩ := by
  simp only [← Hex.decodeStrict_eq_error_iff, Hex.leaves_iff.1 h, readHex, Hex.decode]
  cases Hex.decodeStrict (Hex.digitsOf text) with
  | ok bytes => simp
  | error fault => simp [Failure.data, eq_comm]

/-- The bytes that what is left of a text spells, in either case, are read, and a text that leaves
anything else is refused for what is at fault in it. Bytes are read back from the text they are
written as, and separators change nothing, unless they part the mark or stand in front of it. -/
theorem bytes_read_exactly :
    (∀ text : List Char, ∃ digits, (∀ left, Hex.Leaves text left ↔ left = digits) ∧
      (∀ bytes, readHex text = .ok bytes ↔ digits.map Char.toLower = Hex.encode bytes) ∧
      ∀ failure, readHex text = .error failure ↔
        ∃ fault, Hex.Faulty digits fault ∧ failure = ⟨Failure.invalidData, hexMessage fault⟩) ∧
    (hexMessage .oddLength = "invalid hex: Odd number of digits" ∧
      ∀ byte index, hexMessage (.badDigit byte index) = "invalid hex: " ++ ("Invalid character " ++
        quoteCharacter (Char.ofNat byte.toNat) ++ " at position " ++ toString index)) ∧
    (∀ bytes, readHex (Hex.encode bytes) = .ok bytes) ∧
    ∀ {before separators after : List Char},
      (∀ c ∈ separators, isBlank c = true ∨ c = ':') →
      ('x' ∈ after → ¬ trimStart before <+: ['0']) →
      readHex (before ++ separators ++ after) = readHex (before ++ after) := by
  refine ⟨?_, ⟨by decide, fun byte index => rfl⟩, ?_, ?_⟩
  · intro text
    have hleaves : Hex.Leaves text (Hex.digitsOf text) := Hex.leaves_iff.2 rfl
    exact ⟨Hex.digitsOf text, fun left => Hex.leaves_iff, fun bytes => readHex_eq_ok_iff hleaves,
      fun failure => readHex_eq_error_iff hleaves⟩
  · intro bytes
    have hdecoded : Hex.decode (Hex.encode bytes ++ []) = .ok bytes :=
      Hex.decode_encode bytes (List.forall_mem_nil _)
    rw [List.append_nil] at hdecoded
    rw [readHex, hdecoded]
  · intro before separators after hseparators hplace
    have hskipped : ∀ c ∈ separators, Hex.counts c = false := by
      intro c hc
      rcases hseparators c hc with hblank | rfl
      · exact Hex.counts_of_blank hblank
      · rfl
    rw [readHex, readHex, Hex.decode, Hex.decode, Hex.digitsOf_insert hskipped hplace]

/-- Two bytes behind a mark, and what stands between their digits. -/
def sampleFront : List Char := [' ', '0', 'x', '0']

def sampleSeparators : List Char := [':', '\u2003', '\n']

def sampleRest : List Char := ['A', 'f', 'F']

theorem sampleSeparators_skipped :
    (∀ c ∈ sampleSeparators, isBlank c = true ∨ c = ':') ∧
      ('x' ∈ sampleRest → ¬ trimStart sampleFront <+: ['0']) ∧
      readHex (sampleFront ++ sampleSeparators ++ sampleRest) = .ok [0x0a, 0xff] := by
  have hseparators : ∀ c ∈ sampleSeparators, isBlank c = true ∨ c = ':' :=
    List.forall_mem_cons.2 ⟨Or.inr rfl,
      List.forall_mem_cons.2 ⟨Or.inl rfl, List.forall_mem_singleton.2 (Or.inl rfl)⟩⟩
  have hplace : 'x' ∈ sampleRest → ¬ trimStart sampleFront <+: ['0'] := by decide
  have hskipped := bytes_read_exactly.2.2.2 hseparators hplace
  exact ⟨hseparators, hplace, hskipped.trans rfl⟩

end Bytes

end Command
end InstrumentBus
