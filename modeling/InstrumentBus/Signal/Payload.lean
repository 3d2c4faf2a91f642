import InstrumentBus.Wire.Reader
import InstrumentBus.Wire.Writer
import InstrumentBus.Signal.Identity
import InstrumentBus.Text.Hex

/-!
# Payloads

The value of a signal is a fixed-point number, a 32-bit integer or a byte string
of fixed length. The kind of a signal fixes the resolution or the length.
-/

namespace InstrumentBus
namespace Signal

open Numeric Wire

/-- Whether a node is the source of a signal or accepts it from others. -/
inductive Mode where
  | transmit
  | receive
  deriving DecidableEq, Repr

def Mode.text : Mode → String
  | .transmit => "transmit"
  | .receive => "receive"

/-- A kind without its resolution or length. -/
inductive Shape where
  | scaled
  | integer
  | buffer
  deriving DecidableEq, Repr

def Shape.text : Shape → String
  | .scaled => "scaled"
  | .integer => "integer"
  | .buffer => "buffer"

inductive Kind where
  | scaled (resolution : Binary64)
  | integer
  | buffer (length : Nat)
  deriving DecidableEq

/-- The longest byte string a signal may carry. -/
def maxBufferLength : Nat := 4096

/-- The size of a number, and of the length before a byte string. -/
def wordSize : Nat := 4

/-- The greatest length that fits the word before a byte string. -/
def lengthLimit : Nat := 0xffffffff

/-- Sizes are counted in 64 bits and stay at the greatest such number. -/
def sizeLimit : Nat := 0xffffffffffffffff

namespace Kind

def shape : Kind → Shape
  | .scaled _ => .scaled
  | .integer => .integer
  | .buffer _ => .buffer

/-- The bytes a payload takes on the wire. -/
def size : Kind → Nat
  | .scaled _ | .integer => wordSize
  | .buffer length => Nat.min (wordSize + length) sizeLimit

/-- The bytes a payload takes where no limit holds them. -/
def extent : Kind → Nat
  | .scaled _ | .integer => wordSize
  | .buffer length => wordSize + length

theorem size_eq_extent {k : Kind} (h : k.extent ≤ sizeLimit) : k.size = k.extent := by
  cases k with
  | scaled resolution => rfl
  | integer => rfl
  | buffer length => exact Nat.min_eq_left h

/-- The length in front of a byte string is the length of the kind. -/
def Announced : Kind → List UInt8 → Prop
  | .buffer length, bytes => (wordAt bytes 0).toNat = length
  | .scaled _, _ | .integer, _ => True

instance (k : Kind) (bytes : List UInt8) : Decidable (k.Announced bytes) :=
  match k with
  | .buffer length => inferInstanceAs (Decidable ((wordAt bytes 0).toNat = length))
  | .scaled _ | .integer => isTrue trivial

theorem buffer_of_not_announced {k : Kind} {bytes : List UInt8} (h : ¬ k.Announced bytes) :
    ∃ length, k = .buffer length ∧ (wordAt bytes 0).toNat ≠ length := by
  cases k with
  | scaled resolution => exact absurd trivial h
  | integer => exact absurd trivial h
  | buffer length => exact ⟨length, rfl, h⟩

theorem announced_of_le {k : Kind} {bytes : List UInt8} (h : k.extent ≤ bytes.length)
    (more : List UInt8) : k.Announced (bytes ++ more) ↔ k.Announced bytes := by
  cases k with
  | scaled resolution => exact Iff.rfl
  | integer => exact Iff.rfl
  | buffer length =>
    have hw : wordSize ≤ bytes.length := Nat.le_trans (Nat.le_add_right _ _) h
    rw [Announced, Announced, wordAt_of_le hw]

def text : Kind → String
  | .scaled resolution => "scaled(" ++ Decimal.scientific.render resolution ++ ")"
  | .integer => "integer"
  | .buffer length => s!"buffer[{length}]"

/-- A short description for people. -/
def label : Kind → String
  | .scaled resolution => "scaled (" ++ Decimal.scientific.render resolution ++ ")"
  | .integer => "integer"
  | .buffer length => s!"buffer ({length} bytes)"

end Kind

inductive Error where
  | wire (e : Wire.Error)
  /-- A byte string of another length than the registered one. -/
  | sizeMismatch (expected actual : Nat)
  /-- A length past what a signal may carry. -/
  | tooLarge (length limit : Nat)
  /-- A value of another shape than the one held. -/
  | shapeMismatch (expected actual : Shape)
  /-- An operation for signals of the other mode. -/
  | wrongMode (identity : Identity) (mode : Mode)
  /-- A datagram of another signal. -/
  | identityMismatch (expected actual : Identity)
  | indexOutOfRange (index length : Nat)
  deriving DecidableEq

def Error.message : Error → String
  | .wire e => "wire error: " ++ e.message
  | .sizeMismatch expected actual =>
    s!"payload size mismatch (expected {expected} bytes, got {actual})"
  | .tooLarge length limit =>
    s!"buffer length {length} exceeds the maximum of {limit} bytes"
  | .shapeMismatch expected actual =>
    s!"payload type mismatch (expected {expected.text}, record holds {actual.text})"
  | .wrongMode identity mode => s!"signal {identity.text} is in {mode.text} mode"
  | .identityMismatch expected actual =>
    s!"identity mismatch (record {expected.text}, datagram {actual.text})"
  | .indexOutOfRange index length =>
    s!"index {index} out of range for buffer of length {length}"

/-- A write to the wire as a part of what is sent for a signal. -/
def sending : Except Wire.Error Unit × Writer → Except Error Unit × Writer
  | (.ok (), w) => (.ok (), w)
  | (.error e, w) => (.error (.wire e), w)

inductive Payload where
  | scaled (f : FixedPoint)
  | integer (n : UInt32)
  | buffer (bytes : List UInt8)
  deriving DecidableEq

/-- A new value for a payload, or for one byte of it. -/
inductive ValueChange where
  | scaled (x : Binary64)
  | integer (n : UInt32)
  | bytes (bytes : List UInt8)
  | byte (index : Nat) (value : UInt8)

def ValueChange.shape : ValueChange → Shape
  | .scaled _ => .scaled
  | .integer _ => .integer
  | .bytes _ | .byte _ _ => .buffer

namespace Payload

/-- The zero of a kind. -/
def zero : Kind → Except Error Payload
  | .scaled resolution =>
    match FixedPoint.new resolution with
    | .ok f => .ok (.scaled f)
    | .error e => .error (.wire e)
  | .integer => .ok (.integer 0)
  | .buffer length =>
    if maxBufferLength < length then .error (.tooLarge length maxBufferLength)
    else .ok (.buffer (List.replicate length 0))

def kind : Payload → Kind
  | .scaled f => .scaled f.resolution
  | .integer _ => .integer
  | .buffer bytes => .buffer bytes.length

def shape (p : Payload) : Shape := p.kind.shape

def size (p : Payload) : Nat := p.kind.size

/-- The parts of a payload in the order they are written. -/
def parts : Payload → List (List UInt8)
  | .scaled f => [f.bytes]
  | .integer n => [wordBytes32 n]
  | .buffer bytes => [wordBytes32 (UInt32.ofNat bytes.length), bytes]

def bytes (p : Payload) : List UInt8 := p.parts.flatten

/-- A byte string whose length does not fit the word before it is refused before anything is
written. -/
def write (p : Payload) (w : Writer) : Except Error Unit × Writer :=
  match p with
  | .scaled f => sending (w.put f.bytes)
  | .integer n => sending (w.put (wordBytes32 n))
  | .buffer bytes =>
    if lengthLimit < bytes.length then (.error (.sizeMismatch lengthLimit bytes.length), w)
    else sending (w.putAll [wordBytes32 (UInt32.ofNat bytes.length), bytes])

/-- A payload of the same kind as `p`. A byte string must announce the length `p` has. -/
def read (p : Payload) (r : Reader) : Except Error (Payload × Reader) :=
  match p with
  | .scaled f =>
    match r.fixed f with
    | .ok (f, r) => .ok (.scaled f, r)
    | .error e => .error (.wire e)
  | .integer _ =>
    match r.word with
    | .ok (n, r) => .ok (.integer n, r)
    | .error e => .error (.wire e)
  | .buffer held =>
    match r.word with
    | .error e => .error (.wire e)
    | .ok (length, r) =>
      if length.toNat ≠ held.length then .error (.sizeMismatch held.length length.toNat)
      else
        match r.bytes held.length with
        | .ok (bytes, r) => .ok (.buffer bytes, r)
        | .error e => .error (.wire e)

/-- A new value in the place of the one held, which keeps its kind. -/
def change : Payload → ValueChange → Except Error Payload
  | .scaled f, .scaled x => .ok (.scaled (f.set x))
  | .integer _, .integer n => .ok (.integer n)
  | .buffer held, .bytes bytes =>
    if held.length = bytes.length then .ok (.buffer bytes)
    else .error (.sizeMismatch held.length bytes.length)
  | .buffer held, .byte index value =>
    if index < held.length then .ok (.buffer (held.set index value))
    else .error (.indexOutOfRange index held.length)
  | p, c => .error (.shapeMismatch c.shape p.shape)

/-- Put a new value in the place of the one held: whether it could be, and the payload after it. -/
def amend : Payload → ValueChange → Except Error Unit × Payload
  | .scaled f, .scaled x => (.ok (), .scaled (f.set x))
  | .integer _, .integer n => (.ok (), .integer n)
  | .buffer held, .bytes bytes =>
    if held.length ≠ bytes.length then
      (.error (.sizeMismatch held.length bytes.length), .buffer held)
    else (.ok (), .buffer bytes)
  | .buffer held, .byte index value =>
    if index < held.length then (.ok (), .buffer (held.set index value))
    else (.error (.indexOutOfRange index held.length), .buffer held)
  | p, c => (.error (.shapeMismatch c.shape p.shape), p)

def scaled? : Payload → Option FixedPoint
  | .scaled f => some f
  | _ => none

def integer? : Payload → Option UInt32
  | .integer n => some n
  | _ => none

def bytes? : Payload → Option (List UInt8)
  | .buffer bytes => some bytes
  | _ => none

theorem kind_change {p q : Payload} {c : ValueChange} (h : p.change c = .ok q) :
    q.kind = p.kind := by
  unfold change at h
  split at h
  · cases h; simp [kind]
  · cases h; rfl
  · split at h
    · next hl => cases h; simp [kind, hl]
    · cases h
  · split at h
    · cases h; simp [kind]
    · cases h
  · cases h

/-- A value is put in the place of the one held if there is a changed payload, and that is the
payload then. -/
theorem amend_eq (p : Payload) (c : ValueChange) :
    p.amend c = match p.change c with
      | .ok q => (.ok (), q)
      | .error e => (.error e, p) := by
  cases p with
  | scaled f => cases c <;> rfl
  | integer n => cases c <;> rfl
  | buffer held =>
    cases c with
    | scaled x => rfl
    | integer n => rfl
    | bytes bytes => by_cases h : held.length = bytes.length <;> simp [amend, change, h]
    | byte index value => by_cases h : index < held.length <;> simp [amend, change, h]

/-- There is an encoding of a payload: the length of a byte string fits the word before it. -/
def Encodable : Payload → Prop
  | .buffer bytes => bytes.length ≤ lengthLimit
  | .scaled _ | .integer _ => True

theorem write_of_encodable {p : Payload} (h : p.Encodable) (w : Writer) :
    p.write w = sending (w.putAll p.parts) := by
  cases p with
  | scaled f => rw [write, parts, Writer.putAll_singleton]
  | integer n => rw [write, parts, Writer.putAll_singleton]
  | buffer bytes => rw [write, parts, if_neg (Nat.not_lt.2 h)]

/-- Where there is room for a payload it is written in full. -/
theorem write_of_le {p : Payload} {w : Writer} (h : p.Encodable)
    (hp : w.position ≤ w.buffer.length) (hroom : p.bytes.length ≤ w.available) :
    p.write w = (.ok (), w.lay p.bytes) := by
  rw [write_of_encodable h, Writer.putAll_of_le hp hroom]
  rfl

theorem kind_zero {k : Kind} {p : Payload} (h : zero k = .ok p) : p.kind = k := by
  unfold zero at h
  split at h
  · next resolution =>
    split at h
    · next f hf =>
      obtain ⟨-, rfl⟩ := FixedPoint.new_eq_ok_iff.1 hf
      cases h
      rfl
    · cases h
  · cases h
    rfl
  · split at h
    · cases h
    · cases h
      simp [kind]

/-- The payload of a kind that bytes start with. -/
def ofBytes (k : Kind) (bytes : List UInt8) : Payload :=
  match k with
  | .scaled resolution => .scaled ⟨resolution, latticePoint resolution (wordAt bytes 0)⟩
  | .integer => .integer (wordAt bytes 0)
  | .buffer length => .buffer ((bytes.drop wordSize).take length)

/-- What follows a payload does not matter to it. -/
theorem ofBytes_of_le {k : Kind} {bytes : List UInt8} (h : k.extent ≤ bytes.length)
    (more : List UInt8) : ofBytes k (bytes ++ more) = ofBytes k bytes := by
  cases k with
  | scaled resolution =>
    have hw : wordSize ≤ bytes.length := h
    rw [ofBytes, ofBytes, wordAt_of_le hw]
  | integer =>
    have hw : wordSize ≤ bytes.length := h
    rw [ofBytes, ofBytes, wordAt_of_le hw]
  | buffer length =>
    have hb : wordSize + length ≤ bytes.length := h
    rw [ofBytes, ofBytes, slice_of_le hb]

/-- A payload is read if it is there in full and, for a byte string, announces the
length held. Nothing of the value held but its kind matters. -/
theorem read_eq_ok_iff {p : Payload} {r : Reader} {out : Payload × Reader} :
    p.read r = .ok out ↔ p.kind.extent ≤ r.available ∧ p.kind.Announced r.remaining ∧
      out = (ofBytes p.kind r.remaining, r.advance p.kind.extent) := by
  cases p with
  | scaled f =>
    by_cases h : 4 ≤ r.available
    · simp [read, Reader.fixed, Reader.word_eq, h, kind, Kind.extent, Kind.Announced, ofBytes,
        wordSize, FixedPoint.decode, eq_comm]
    · simp [read, Reader.fixed, Reader.word_eq, h, kind, Kind.extent, wordSize]
  | integer n =>
    by_cases h : 4 ≤ r.available
    · simp [read, Reader.word_eq, h, kind, Kind.extent, Kind.Announced, ofBytes, wordSize, eq_comm]
    · simp [read, Reader.word_eq, h, kind, Kind.extent, wordSize]
  | buffer held =>
    by_cases h : 4 ≤ r.available
    · by_cases hl : (wordAt r.remaining 0).toNat = held.length
      · by_cases hb : held.length ≤ r.available - 4
        · have hle : 4 + held.length ≤ r.available := by omega
          simp [read, Reader.word_eq, Reader.bytes, Reader.available_advance,
            Reader.remaining_advance, Reader.advance_advance, h, hl, hb, hle, kind, Kind.extent,
            Kind.Announced, ofBytes, wordSize, eq_comm]
        · have hle : ¬ 4 + held.length ≤ r.available := by omega
          simp [read, Reader.word_eq, Reader.bytes, Reader.available_advance, h, hl, hb, hle, kind,
            Kind.extent, wordSize]
      · simp [read, Reader.word_eq, h, hl, kind, Kind.Announced]
    · have hle : ¬ 4 + held.length ≤ r.available := by omega
      simp [read, Reader.word_eq, h, hle, kind, Kind.extent, wordSize]

/-- A byte string that announces another length than the one held is refused. -/
theorem read_of_not_announced {p : Payload} {r : Reader} {length : Nat}
    (hk : p.kind = .buffer length) (hr : wordSize ≤ r.available)
    (ha : (wordAt r.remaining 0).toNat ≠ length) :
    p.read r = .error (.sizeMismatch length (wordAt r.remaining 0).toNat) := by
  cases p with
  | scaled f => cases hk
  | integer n => cases hk
  | buffer held =>
    simp only [kind, Kind.buffer.injEq] at hk
    subst hk
    have h : 4 ≤ r.available := hr
    simp [read, Reader.word_eq, h, ha]

end Payload
end Signal
end InstrumentBus
