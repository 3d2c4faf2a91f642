import InstrumentBus.Signal.Identity
import InstrumentBus.Signal.Priority
import InstrumentBus.Wire.Reader
import InstrumentBus.Wire.Writer

/-!
# Datagram headers

Every datagram starts with eight bytes: the sending device, its priority, the
identity of the signal and the sender's clock.
-/

namespace InstrumentBus
namespace Signal

open Wire

structure Header where
  device : UInt8
  priority : Priority
  identity : Identity
  timestamp : UInt32
  deriving DecidableEq, Repr

def headerSize : Nat := 8

namespace Header

/-- The header of a signal that no source has sent yet. -/
def silent (identity : Identity) : Header := ⟨0, ⟨0⟩, identity, 0⟩

/-- The parts of a header in the order they are written. -/
def parts (h : Header) : List (List UInt8) :=
  [[h.device], [h.priority.byte], [h.identity.category], [h.identity.subcategory],
    wordBytes32 h.timestamp]

def bytes (h : Header) : List UInt8 := h.parts.flatten

/-- The next eight bytes as a header. A fault names the field that is cut off. -/
def read (r : Reader) : Except Error (Header × Reader) := do
  let (device, r) ← r.byte
  let (priority, r) ← r.byte
  let (category, r) ← r.byte
  let (subcategory, r) ← r.byte
  let (timestamp, r) ← r.word
  return (⟨device, ⟨priority⟩, ⟨category, subcategory⟩, timestamp⟩, r)

/-- The header a reader stands at, without moving it. -/
def peek (r : Reader) : Except Error Header := (read r).map (·.1)

def write (h : Header) (w : Writer) : Except Error Unit × Writer := w.putAll h.parts

/-- The header that bytes start with, its fields at fixed offsets. -/
def ofBytes (bytes : List UInt8) : Header :=
  ⟨bytes.getD 0 0, ⟨bytes.getD 1 0⟩, ⟨bytes.getD 2 0, bytes.getD 3 0⟩, wordAt bytes 4⟩

theorem read_of_le {r : Reader} (h : headerSize ≤ r.available) :
    read r = .ok (ofBytes r.remaining, r.advance headerSize) := by
  have h0 : 8 ≤ r.available := h
  have h1 : 1 ≤ r.available := by omega
  have h2 : 1 ≤ r.available - 1 := by omega
  have h3 : 1 ≤ r.available - 2 := by omega
  have h4 : 1 ≤ r.available - 3 := by omega
  have h8 : 4 ≤ r.available - 4 := by omega
  simp [read, bind, Except.bind, pure, Except.pure, Reader.byte_eq, Reader.word_eq,
    Reader.available_advance, Reader.remaining_advance, Reader.advance_advance, h1, h2, h3, h4,
    h8, ofBytes, headerSize, wordAt_drop]

/-- Of fewer than eight bytes, the first field that is cut off is the one at fault. -/
theorem read_of_lt {r : Reader} (h : r.available < headerSize) :
    read r = .error (if r.available < 4 then .underrun 1 0 else .underrun 4 (r.available - 4)) := by
  have hcut : r.available = 0 ∨ r.available = 1 ∨ r.available = 2 ∨ r.available = 3 ∨
      4 ≤ r.available := by omega
  rcases hcut with ha | ha | ha | ha | ha
  · simp [read, bind, Except.bind, Reader.byte_eq, ha]
  · simp [read, bind, Except.bind, Reader.byte_eq, Reader.available_advance, ha]
  · simp [read, bind, Except.bind, Reader.byte_eq, Reader.available_advance, ha]
  · simp [read, bind, Except.bind, Reader.byte_eq, Reader.available_advance, ha]
  · have h1 : 1 ≤ r.available := by omega
    have h2 : 1 ≤ r.available - 1 := by omega
    have h3 : 1 ≤ r.available - 2 := by omega
    have h4 : 1 ≤ r.available - 3 := by omega
    have h8 : ¬ 4 ≤ r.available - 4 := by unfold headerSize at h; omega
    have hlt : ¬ r.available < 4 := by omega
    simp [read, bind, Except.bind, Reader.byte_eq, Reader.word_eq, Reader.available_advance,
      Reader.advance_advance, h1, h2, h3, h4, h8, hlt]

/-- What follows a header does not matter to it. -/
theorem ofBytes_of_le {bytes : List UInt8} (h : headerSize ≤ bytes.length) (more : List UInt8) :
    ofBytes (bytes ++ more) = ofBytes bytes := by
  have h8 : 8 ≤ bytes.length := h
  have hbyte {offset : Nat} (ho : offset < 4) :
      (bytes ++ more).getD offset 0 = bytes.getD offset 0 := by
    rw [List.getD_eq_getElem?_getD, List.getD_eq_getElem?_getD,
      List.getElem?_append_left (by omega)]
  rw [ofBytes, ofBytes, wordAt_of_le h8, hbyte (by decide), hbyte (by decide), hbyte (by decide),
    hbyte (by decide)]

theorem bytes_eq (h : Header) : h.bytes = [h.device, h.priority.byte, h.identity.category,
    h.identity.subcategory] ++ wordBytes32 h.timestamp := by
  simp [bytes, parts]

theorem length_bytes (h : Header) : h.bytes.length = headerSize := by
  simp [bytes_eq, wordBytes32, headerSize]

end Header
end Signal
end InstrumentBus
