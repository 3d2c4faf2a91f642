/-!
# Words on the wire

Numbers travel with their most significant byte first. A 32-bit word is also read
as a two's complement integer.
-/

namespace InstrumentBus
namespace Wire

/-- The number written by bytes, the most significant one first. -/
def wordValue (bytes : List UInt8) : Nat :=
  bytes.foldl (fun n b => 256 * n + b.toNat) 0

/-- The low bytes of a number, the most significant one first. -/
def wordBytes : (count : Nat) → (n : Nat) → List UInt8
  | 0, _ => []
  | count + 1, n => wordBytes count (n / 256) ++ [UInt8.ofNat n]

@[simp] theorem length_wordBytes (count n : Nat) : (wordBytes count n).length = count := by
  induction count generalizing n with
  | zero => rfl
  | succ count ih => simp [wordBytes, ih]

theorem wordValue_append (bytes : List UInt8) (b : UInt8) :
    wordValue (bytes ++ [b]) = 256 * wordValue bytes + b.toNat := by
  simp [wordValue, List.foldl_append]

theorem wordValue_wordBytes (count n : Nat) :
    wordValue (wordBytes count n) = n % Nat.pow 256 count := by
  induction count generalizing n with
  | zero => simp [wordBytes, wordValue, Nat.mod_one]
  | succ count ih =>
    have hp : (256 : Nat) ^ (count + 1) = 256 * 256 ^ count := Nat.pow_succ'
    rw [wordBytes, wordValue_append, ih, UInt8.toNat_ofNat', Nat.pow_eq, Nat.pow_eq, hp,
      Nat.mod_mul]
    omega

theorem wordBytes_wordValue (bytes : List UInt8) :
    wordBytes bytes.length (wordValue bytes) = bytes := by
  suffices h : ∀ (k : Nat) (bytes : List UInt8), bytes.length = k →
      wordBytes k (wordValue bytes) = bytes from h _ _ rfl
  intro k
  induction k with
  | zero => intro bytes h; rw [List.length_eq_zero_iff.1 h]; rfl
  | succ k ih =>
    intro bytes h
    have hne : bytes ≠ [] := by intro e; subst e; simp at h
    have hb := List.dropLast_concat_getLast hne
    have hl : bytes.dropLast.length = k := by simp [h]
    have hlast := (bytes.getLast hne).toNat_lt
    rw [← hb, wordBytes, wordValue_append]
    have h1 : (256 * wordValue bytes.dropLast + (bytes.getLast hne).toNat) / 256
        = wordValue bytes.dropLast := by omega
    have h2 : UInt8.ofNat (256 * wordValue bytes.dropLast + (bytes.getLast hne).toNat)
        = bytes.getLast hne := by
      apply UInt8.toNat_inj.1
      rw [UInt8.toNat_ofNat']
      omega
    rw [h1, h2, ih _ hl]

/-- The number in the two bytes at an offset. -/
def halfAt (bytes : List UInt8) (offset : Nat) : UInt16 :=
  UInt16.ofNat (wordValue ((bytes.drop offset).take 2))

/-- The number in the four bytes at an offset. -/
def wordAt (bytes : List UInt8) (offset : Nat) : UInt32 :=
  UInt32.ofNat (wordValue ((bytes.drop offset).take 4))

theorem halfAt_drop (bytes : List UInt8) (m n : Nat) :
    halfAt (bytes.drop m) n = halfAt bytes (m + n) := by
  rw [halfAt, halfAt, List.drop_drop]

theorem wordAt_drop (bytes : List UInt8) (m n : Nat) :
    wordAt (bytes.drop m) n = wordAt bytes (m + n) := by
  rw [wordAt, wordAt, List.drop_drop]

/-- Bytes behind those that are read do not matter. -/
theorem slice_of_le {bytes : List UInt8} {offset count : Nat} (h : offset + count ≤ bytes.length)
    (more : List UInt8) :
    ((bytes ++ more).drop offset).take count = (bytes.drop offset).take count := by
  rw [List.drop_append_of_le_length (by omega),
    List.take_append_of_le_length (by rw [List.length_drop]; omega)]

theorem halfAt_of_le {bytes : List UInt8} {offset : Nat} (h : offset + 2 ≤ bytes.length)
    (more : List UInt8) : halfAt (bytes ++ more) offset = halfAt bytes offset := by
  rw [halfAt, halfAt, slice_of_le h]

theorem wordAt_of_le {bytes : List UInt8} {offset : Nat} (h : offset + 4 ≤ bytes.length)
    (more : List UInt8) : wordAt (bytes ++ more) offset = wordAt bytes offset := by
  rw [wordAt, wordAt, slice_of_le h]

/-- The integer a word stands for in two's complement. -/
def signedValue (word : UInt32) : Int :=
  if word.toNat < 0x80000000 then word.toNat else word.toNat - 0x100000000

/-- The word of an integer in two's complement. -/
def wordOf (n : Int) : UInt32 := UInt32.ofNat (n % 0x100000000).toNat

theorem signedValue_mem (word : UInt32) :
    -0x80000000 ≤ signedValue word ∧ signedValue word < 0x80000000 := by
  have := word.toNat_lt
  unfold signedValue
  split <;> omega

theorem wordOf_signedValue (word : UInt32) : wordOf (signedValue word) = word := by
  have := word.toNat_lt
  apply UInt32.toNat_inj.1
  unfold wordOf signedValue
  rw [UInt32.toNat_ofNat']
  split <;> omega

theorem signedValue_wordOf {n : Int} (hl : -0x80000000 ≤ n) (hh : n < 0x80000000) :
    signedValue (wordOf n) = n := by
  unfold signedValue wordOf
  rw [UInt32.toNat_ofNat']
  split <;> omega

end Wire
end InstrumentBus
