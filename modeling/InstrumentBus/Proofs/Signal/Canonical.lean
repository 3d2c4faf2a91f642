import InstrumentBus.Proofs.Signal.Transmission
import InstrumentBus.Proofs.Wire.Lattice

/-!
# One encoding for each datagram

Whatever header and payload are read from bytes, writing them gives the same bytes again. There
is no second way to write a number or a length, and where the least multiple of a resolution is
finite there is no second word for a scaled value either.
-/

namespace InstrumentBus
namespace Signal

open Numeric Wire

section Words

variable {bytes : List UInt8} {offset : Nat}

theorem wordValue_lt (bytes : List UInt8) : wordValue bytes < Nat.pow 256 bytes.length := by
  have hvalue := wordValue_wordBytes bytes.length (wordValue bytes)
  rw [wordBytes_wordValue] at hvalue
  have hpos : 0 < Nat.pow 256 bytes.length := Nat.pow_pos (by decide)
  exact hvalue ▸ Nat.mod_lt _ hpos

theorem length_slice {count : Nat} (h : offset + count ≤ bytes.length) :
    ((bytes.drop offset).take count).length = count := by
  simp only [List.length_take, List.length_drop]
  omega

theorem wordBytes32_wordAt (h : offset + 4 ≤ bytes.length) :
    wordBytes32 (wordAt bytes offset) = (bytes.drop offset).take 4 := by
  have hlength := length_slice h
  have hlt := wordValue_lt ((bytes.drop offset).take 4)
  rw [hlength] at hlt
  rw [wordBytes32, wordAt, UInt32.toNat_ofNat_of_lt' hlt]
  have hback := wordBytes_wordValue ((bytes.drop offset).take 4)
  rwa [hlength] at hback

theorem halfBytes_halfAt (h : offset + 2 ≤ bytes.length) :
    halfBytes (halfAt bytes offset) = (bytes.drop offset).take 2 := by
  have hlength := length_slice h
  have hlt := wordValue_lt ((bytes.drop offset).take 2)
  rw [hlength] at hlt
  rw [halfBytes, halfAt, UInt16.toNat_ofNat_of_lt' hlt]
  have hback := wordBytes_wordValue ((bytes.drop offset).take 2)
  rwa [hlength] at hback

end Words

theorem Priority.ofRank_rank (p : Priority) : ofRank p.healthy p.rank = p := by
  have hbytes : ∀ byte : Fin 256, ofRank (Priority.mk (UInt8.ofFin byte)).healthy
      (Priority.mk (UInt8.ofFin byte)).rank = ⟨UInt8.ofFin byte⟩ := by decide +kernel
  exact hbytes p.byte.toFin

theorem Header.bytes_ofBytes {bytes : List UInt8} (h : headerSize ≤ bytes.length) :
    (Header.ofBytes bytes).bytes = bytes.take headerSize := by
  have hstamp : wordBytes32 (wordAt bytes 4) = (bytes.drop 4).take 4 := wordBytes32_wordAt h
  have hsplit : bytes.take (4 + 4) = bytes.take 4 ++ (bytes.drop 4).take 4 := List.take_add
  have hsingle : [bytes.getD 0 0, bytes.getD 1 0, bytes.getD 2 0, bytes.getD 3 0] =
      bytes.take 4 := by
    match bytes, h with
    | device :: priority :: category :: subcategory :: rest, _ => rfl
  rw [Header.bytes_eq, Header.ofBytes, hsingle, hstamp]
  exact hsplit.symm

/-- A kind a payload can have, the least value of which is finite if it is scaled. -/
structure Kind.Faithful (k : Kind) : Prop where
  exists_zero : ∃ zero, Payload.zero k = .ok zero
  finite : ∀ resolution, k = .scaled resolution →
    ((Binary64.ofInt (-0x80000000)).mul resolution).isFinite = true

theorem Kind.Faithful.registrable {k : Kind} (h : k.Faithful) : k.Registrable := by
  obtain ⟨zero, hzero⟩ := h.exists_zero
  exact Kind.registrable_of_zero hzero

theorem Kind.Faithful.size_eq {k : Kind} (h : k.Faithful) : k.size = k.extent :=
  Kind.size_eq_extent h.registrable.extent_le

/-- If the least multiple of a resolution is finite, a word comes back from its value. -/
theorem encode_latticePoint {resolution : Binary64} (h : isResolution resolution = true)
    (hleast : (latticePoint resolution 0x80000000).isFinite = true) (raw : UInt32) :
    FixedPoint.encode ⟨resolution, latticePoint resolution raw⟩ = raw := by
  have hfinite : (latticePoint resolution raw).isFinite = true := by
    apply isFinite_latticePoint_mono h _ hleast
    have hrange := signedValue_mem raw
    have hlimit : (signedValue 0x80000000).natAbs = 0x80000000 := by decide
    omega
  rw [encode_ofRaw h, if_pos hfinite]

theorem Payload.bytes_ofBytes {k : Kind} {bytes : List UInt8} (hk : k.Faithful)
    (hle : k.extent ≤ bytes.length) (ha : k.Announced bytes) :
    (Payload.ofBytes k bytes).bytes = bytes.take k.extent := by
  cases k with
  | scaled resolution =>
    have hword : 0 + 4 ≤ bytes.length := hle
    have hleast : (latticePoint resolution 0x80000000).isFinite = true := hk.finite _ rfl
    have hcode := encode_latticePoint hk.registrable hleast (wordAt bytes 0)
    simp [Payload.ofBytes, Payload.bytes, parts, FixedPoint.bytes, hcode,
      wordBytes32_wordAt hword, Kind.extent, wordSize]
  | integer =>
    have hword : 0 + 4 ≤ bytes.length := hle
    simp [Payload.ofBytes, Payload.bytes, parts, wordBytes32_wordAt hword, Kind.extent, wordSize]
  | buffer length =>
    have hroom : wordSize + length ≤ bytes.length := hle
    have hword : 0 + 4 ≤ bytes.length := Nat.le_trans (Nat.le_add_right _ _) hroom
    have hcontent : ((bytes.drop wordSize).take length).length = length := length_slice hroom
    have hlength : UInt32.ofNat length = wordAt bytes 0 := by
      have hannounced : (wordAt bytes 0).toNat = length := ha
      rw [← hannounced, UInt32.ofNat_toNat]
    have hannounce : wordBytes32 (wordAt bytes 0) = bytes.take wordSize := wordBytes32_wordAt hword
    calc
      (Payload.ofBytes (.buffer length) bytes).bytes
        = wordBytes32 (wordAt bytes 0) ++ (bytes.drop wordSize).take length := by
          simp only [Payload.ofBytes, Payload.bytes, parts, hcontent, hlength,
            List.flatten_cons, List.flatten_nil, List.append_nil]
      _ = bytes.take wordSize ++ (bytes.drop wordSize).take length := by rw [hannounce]
      _ = bytes.take (wordSize + length) := List.take_add.symm

/-- What a reader decodes as a datagram of some kind: a header, and then a payload as it is read
by any one of that kind. -/
inductive Decodes (k : Kind) (reader : Reader) : Header → Payload → Reader → Prop where
  | intro {held payload : Payload} {header : Header} {behind after : Reader}
      (hkind : held.kind = k) (hheader : Header.read reader = .ok (header, behind))
      (hpayload : held.read behind = .ok (payload, after)) : Decodes k reader header payload after

namespace Decodes

variable {k : Kind} {reader after : Reader} {header : Header} {payload : Payload}

theorem spec (h : Decodes k reader header payload after) :
    headerSize + k.extent ≤ reader.available ∧
      k.Announced (reader.remaining.drop headerSize) ∧
      header = Header.ofBytes reader.remaining ∧
      payload = Payload.ofBytes k (reader.remaining.drop headerSize) ∧
      after = reader.advance (headerSize + k.extent) := by
  obtain ⟨hkind, hheader, hpayload⟩ := h
  by_cases hle : headerSize ≤ reader.available
  · rw [Header.read_of_le hle] at hheader
    cases hheader
    obtain ⟨hroom, hannounced, hout⟩ := Payload.read_eq_ok_iff.1 hpayload
    rw [hkind, Reader.available_advance] at hroom
    rw [hkind, Reader.remaining_advance] at hannounced
    rw [hkind, Reader.remaining_advance, Reader.advance_advance] at hout
    cases hout
    exact ⟨by omega, hannounced, rfl, rfl, rfl⟩
  · rw [Header.read_of_lt (Nat.lt_of_not_le hle)] at hheader
    cases hheader

theorem kind_eq (h : Decodes k reader header payload after) : payload.kind = k := by
  obtain ⟨hle, -, -, rfl, -⟩ := h.spec
  apply Payload.kind_ofBytes
  rw [List.length_drop, Reader.length_remaining]
  omega

theorem bytes_eq (h : Decodes k reader header payload after) (hk : k.Faithful) :
    header.bytes ++ payload.bytes = reader.remaining.take (headerSize + k.size) := by
  obtain ⟨hle, hannounced, rfl, rfl, -⟩ := h.spec
  have hlength := reader.length_remaining
  have hbody : k.extent ≤ (reader.remaining.drop headerSize).length := by
    rw [List.length_drop]
    omega
  rw [Header.bytes_ofBytes (by omega), Payload.bytes_ofBytes hk hbody hannounced, hk.size_eq,
    List.take_add]

theorem write_eq (h : Decodes k reader header payload after) (hk : k.Faithful) {w : Writer}
    (hroom : headerSize + k.size ≤ w.available) :
    ∃ between, header.write w = (.ok (), between) ∧
      payload.write between =
        (.ok (), w.lay (reader.remaining.take (headerSize + k.size))) := by
  have hbytes := h.bytes_eq hk
  have hlength : header.bytes.length + payload.bytes.length = headerSize + k.size := by
    obtain ⟨hle, -, -, -, -⟩ := h.spec
    have htaken := congrArg List.length hbytes
    rw [List.length_append, List.length_take, Reader.length_remaining] at htaken
    rw [htaken, hk.size_eq, Nat.min_eq_left hle]
  have hfirst : header.bytes.length ≤ w.available := by omega
  have hp : w.position ≤ w.buffer.length := by
    simp only [Writer.available, headerSize] at hroom
    omega
  have hsecond : payload.bytes.length ≤ (w.lay header.bytes).available := by
    rw [Writer.available_lay hfirst]
    omega
  refine ⟨w.lay header.bytes, Writer.putAll_of_le hp hfirst, ?_⟩
  have hencodable : payload.Encodable :=
    (Payload.sound_of_registrable (h.kind_eq ▸ hk.registrable)).encodable
  have hwrite : payload.write (w.lay header.bytes) =
      (.ok (), (w.lay header.bytes).lay payload.bytes) :=
    Payload.write_of_le hencodable (Writer.position_lay_le hp hfirst) hsecond
  rw [hwrite, Writer.lay_lay hp, hbytes]

end Decodes

end Signal
end InstrumentBus
