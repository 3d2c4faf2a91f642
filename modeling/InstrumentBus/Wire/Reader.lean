import InstrumentBus.Wire.FixedPoint

/-!
# Reading bytes

A reader is a buffer and a position in it. A read either yields a value and the
reader behind it, or fails and yields nothing, so the reader before it still
stands where it stood.
-/

namespace InstrumentBus
namespace Wire

structure Reader where
  buffer : List UInt8
  position : Nat
  deriving DecidableEq

namespace Reader

def ofBytes (buffer : List UInt8) : Reader := ⟨buffer, 0⟩

def available (r : Reader) : Nat := r.buffer.length - r.position

/-- The bytes not read yet. -/
def remaining (r : Reader) : List UInt8 := r.buffer.drop r.position

def advance (r : Reader) (count : Nat) : Reader := { r with position := r.position + count }

def reset (r : Reader) : Reader := { r with position := 0 }

/-- The reader with more bytes behind those it has. -/
def extend (r : Reader) (more : List UInt8) : Reader := { r with buffer := r.buffer ++ more }

/-- The next bytes, if there are that many. -/
def bytes (r : Reader) (count : Nat) : Except Error (List UInt8 × Reader) :=
  if count ≤ r.available then .ok (r.remaining.take count, r.advance count)
  else .error (.underrun count r.available)

/-- The number in the next bytes. -/
def number (r : Reader) (count : Nat) : Except Error (Nat × Reader) :=
  match r.bytes count with
  | .error e => .error e
  | .ok (bytes, r) => .ok (wordValue bytes, r)

def byte (r : Reader) : Except Error (UInt8 × Reader) :=
  match r.number 1 with
  | .error e => .error e
  | .ok (n, r) => .ok (UInt8.ofNat n, r)

def half (r : Reader) : Except Error (UInt16 × Reader) :=
  match r.number 2 with
  | .error e => .error e
  | .ok (n, r) => .ok (UInt16.ofNat n, r)

def word (r : Reader) : Except Error (UInt32 × Reader) :=
  match r.number 4 with
  | .error e => .error e
  | .ok (n, r) => .ok (UInt32.ofNat n, r)

def signedWord (r : Reader) : Except Error (Int × Reader) :=
  match r.word with
  | .error e => .error e
  | .ok (raw, r) => .ok (signedValue raw, r)

/-- A fixed-point value in the resolution of a given one. -/
def fixed (r : Reader) (f : FixedPoint) : Except Error (FixedPoint × Reader) :=
  match r.word with
  | .error e => .error e
  | .ok (raw, r) => .ok (f.decode raw, r)

@[simp] theorem length_remaining (r : Reader) : r.remaining.length = r.available := by
  simp [remaining, available]

@[simp] theorem remaining_ofBytes (buffer : List UInt8) : (ofBytes buffer).remaining = buffer := rfl

@[simp] theorem available_ofBytes (buffer : List UInt8) :
    (ofBytes buffer).available = buffer.length := rfl

theorem remaining_advance (r : Reader) (count : Nat) :
    (r.advance count).remaining = r.remaining.drop count := by
  simp [remaining, advance]

theorem available_advance (r : Reader) (count : Nat) :
    (r.advance count).available = r.available - count := by
  simp only [available, advance]
  omega

theorem advance_advance (r : Reader) (m n : Nat) :
    (r.advance m).advance n = r.advance (m + n) := by
  simp [advance, Nat.add_assoc]

theorem remaining_extend {r : Reader} (h : r.position ≤ r.buffer.length) (more : List UInt8) :
    (r.extend more).remaining = r.remaining ++ more := List.drop_append_of_le_length h

theorem extend_extend (r : Reader) (a b : List UInt8) :
    (r.extend a).extend b = r.extend (a ++ b) := by
  simp [extend]

theorem advance_extend (r : Reader) (count : Nat) (more : List UInt8) :
    (r.extend more).advance count = (r.advance count).extend more := rfl

theorem byte_eq (r : Reader) : r.byte =
    if 1 ≤ r.available then .ok (r.remaining.getD 0 0, r.advance 1)
    else .error (.underrun 1 r.available) := by
  by_cases h : 1 ≤ r.available
  · have hl : r.remaining.length = r.available := r.length_remaining
    cases hr : r.remaining with
    | nil => simp [hr] at hl; omega
    | cons b rest => simp [byte, number, bytes, h, hr, wordValue]
  · simp [byte, number, bytes, h]

theorem half_eq (r : Reader) : r.half =
    if 2 ≤ r.available then .ok (halfAt r.remaining 0, r.advance 2)
    else .error (.underrun 2 r.available) := by
  by_cases h : 2 ≤ r.available <;> simp [half, number, bytes, halfAt, h]

theorem word_eq (r : Reader) : r.word =
    if 4 ≤ r.available then .ok (wordAt r.remaining 0, r.advance 4)
    else .error (.underrun 4 r.available) := by
  by_cases h : 4 ≤ r.available <;> simp [word, number, bytes, wordAt, h]

end Reader
end Wire
end InstrumentBus
