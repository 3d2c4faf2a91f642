import InstrumentBus.Proofs.Signal.WellFormed

/-!
# From one end of the wire to the other

What a receiver reads from the bytes that a sender writes: the same header, and the payload
as it was but for a scaled value, which arrives as the multiple of its resolution that its
word stands for. Bytes that follow do not matter.
-/

namespace InstrumentBus
namespace Signal

open Wire

theorem wordAt_append (n : UInt32) (rest : List UInt8) :
    wordAt (wordBytes32 n ++ rest) 0 = n := by
  have hlt : n.toNat < Nat.pow 256 4 := n.toNat_lt
  have htake : (wordBytes 4 n.toNat ++ rest).take 4 = wordBytes 4 n.toNat :=
    List.take_left' (length_wordBytes 4 n.toNat)
  rw [wordAt, wordBytes32, List.drop_zero, htake, wordValue_wordBytes, Nat.mod_eq_of_lt hlt,
    UInt32.ofNat_toNat]

theorem halfAt_append (n : UInt16) (rest : List UInt8) :
    halfAt (halfBytes n ++ rest) 0 = n := by
  have hlt : n.toNat < Nat.pow 256 2 := n.toNat_lt
  have htake : (wordBytes 2 n.toNat ++ rest).take 2 = wordBytes 2 n.toNat :=
    List.take_left' (length_wordBytes 2 n.toNat)
  rw [halfAt, halfBytes, List.drop_zero, htake, wordValue_wordBytes, Nat.mod_eq_of_lt hlt,
    UInt16.ofNat_toNat]

theorem Header.ofBytes_append (h : Header) (rest : List UInt8) :
    Header.ofBytes (h.bytes ++ rest) = h := by
  have hstamp : wordAt (h.bytes ++ rest) 4 = h.timestamp := by
    have hd := wordAt_drop (h.bytes ++ rest) 4 0
    rw [← hd, Header.bytes_eq]
    exact wordAt_append h.timestamp rest
  rw [Header.ofBytes, hstamp, Header.bytes_eq]
  rfl

theorem Header.drop_append (h : Header) (rest : List UInt8) :
    (h.bytes ++ rest).drop headerSize = rest := List.drop_left' h.length_bytes

namespace Payload

def carried : Payload → Payload
  | .scaled f => .scaled (f.decode f.encode)
  | .integer n => .integer n
  | .buffer bytes => .buffer bytes

theorem kind_carried (p : Payload) : p.carried.kind = p.kind := by
  cases p with
  | scaled f => exact congrArg Kind.scaled (f.decode_resolution f.encode)
  | integer n => rfl
  | buffer bytes => rfl

/-- A payload and what arrives of it: integers and byte strings are equal, and a scaled value
is the one made anew from its resolution and its word. -/
inductive Carried : Payload → Payload → Prop where
  | scaled {f g : FixedPoint} (h : FixedPoint.ofRaw f.resolution f.encode = .ok g) :
      Carried (.scaled f) (.scaled g)
  | integer (n : UInt32) : Carried (.integer n) (.integer n)
  | buffer (bytes : List UInt8) : Carried (.buffer bytes) (.buffer bytes)

/-- A payload that can be read back once it is written: its resolution is one, and the length of
a byte string fits the word in front of it. -/
def Sound : Payload → Prop
  | .scaled f => isResolution f.resolution = true
  | .integer _ => True
  | .buffer bytes => bytes.length ≤ lengthLimit

theorem Sound.encodable {p : Payload} (h : p.Sound) : p.Encodable := by
  cases p with
  | scaled f => trivial
  | integer n => trivial
  | buffer bytes => exact h

theorem sound_of_registrable {p : Payload} (h : p.kind.Registrable) : p.Sound := by
  cases p with
  | scaled f => exact h
  | integer n => trivial
  | buffer bytes =>
    have hl : bytes.length ≤ maxBufferLength := h
    exact Nat.le_trans hl (by decide)

theorem carried_spec {p : Payload} (h : p.Sound) : Carried p p.carried := by
  cases p with
  | scaled f =>
    have hf : isResolution f.resolution = true := h
    have hnew : FixedPoint.new f.resolution = .ok _ := FixedPoint.new_eq_ok_iff.2 ⟨hf, rfl⟩
    apply Carried.scaled
    rw [FixedPoint.ofRaw, hnew]
    rfl
  | integer n => exact .integer n
  | buffer bytes => exact .buffer bytes

theorem length_bytes (p : Payload) : p.bytes.length = p.kind.extent := by
  cases p with
  | scaled f => simp [bytes, parts, kind, Kind.extent, FixedPoint.bytes, wordBytes32, wordSize]
  | integer n => simp [bytes, parts, kind, Kind.extent, wordBytes32, wordSize]
  | buffer held => simp [bytes, parts, kind, Kind.extent, wordBytes32, wordSize]

theorem announced_append {p : Payload} (h : p.Encodable) (rest : List UInt8) :
    p.kind.Announced (p.bytes ++ rest) := by
  cases p with
  | scaled f => trivial
  | integer n => trivial
  | buffer held =>
    have hl : held.length ≤ lengthLimit := h
    have hbytes : (Payload.buffer held).bytes ++ rest =
        wordBytes32 (UInt32.ofNat held.length) ++ (held ++ rest) := by
      simp [bytes, parts]
    have hfits : held.length < UInt32.size := Nat.lt_of_le_of_lt hl (by decide)
    change (wordAt _ 0).toNat = held.length
    rw [hbytes, wordAt_append, UInt32.toNat_ofNat_of_lt' hfits]

theorem ofBytes_append (p : Payload) (rest : List UInt8) :
    ofBytes p.kind (p.bytes ++ rest) = p.carried := by
  cases p with
  | scaled f =>
    have hw := wordAt_append f.encode rest
    simp [ofBytes, kind, carried, bytes, parts, FixedPoint.bytes, FixedPoint.decode, hw]
  | integer n =>
    have hw := wordAt_append n rest
    simp [ofBytes, kind, carried, bytes, parts, hw]
  | buffer held =>
    have hbytes : (Payload.buffer held).bytes ++ rest =
        wordBytes32 (UInt32.ofNat held.length) ++ (held ++ rest) := by
      simp [bytes, parts]
    have hdrop : (wordBytes32 (UInt32.ofNat held.length) ++ (held ++ rest)).drop wordSize =
        held ++ rest := List.drop_left' (length_wordBytes 4 _)
    simp [ofBytes, kind, carried, hbytes, hdrop]

end Payload

theorem Record.length_bytes {r : Record} (h : r.WellFormed) : r.bytes.length = r.packetSize := by
  rw [Record.bytes, List.length_append, Header.length_bytes, Payload.length_bytes,
    h.packetSize_eq]

end Signal
end InstrumentBus
