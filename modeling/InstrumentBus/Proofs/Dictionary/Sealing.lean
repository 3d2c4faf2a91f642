import InstrumentBus.Proofs.Dictionary.Emission
import InstrumentBus.Proofs.Dictionary.Call

/-!
# Emission is all or nothing

A signal is emitted in full or not at all. The room that is asked for before anything is
written is the room that the header, the payload and the checksum take, so that no later step
can fail. The checksum is taken over the bytes just written and over no others, wherever in its
buffer the writer stands and whatever has been written before.
-/

namespace InstrumentBus
namespace Dictionary

open Wire Signal

/-- The bytes of a datagram: the header, the payload and, where there is a checksum, the
checksum of these with its more significant byte first. -/
inductive IsDatagram (d : Dictionary) (r : Record) : List UInt8 → Prop where
  | bare (h : d.config.integrity = none) : IsDatagram d r (r.header.bytes ++ r.payload.bytes)
  | checked {checksum : Integrity} {sum : UInt16} (h : d.config.integrity = some checksum)
      (hsum : sum = checksum (r.header.bytes ++ r.payload.bytes)) :
      IsDatagram d r (r.header.bytes ++ r.payload.bytes ++
        [UInt8.ofNat (sum.toNat / 256), UInt8.ofNat (sum.toNat % 256)])

/-- Why a signal is not emitted: it is not registered, it is not for this node to send, or
there is less room than its datagram takes. Each counts only if those before it do not. -/
inductive Withheld (d : Dictionary) (i : Identity) (w : Writer) : Error → Prop where
  | unknown (h : d.record? i = none) : Withheld d i w (.unknownIdentity i)
  | incoming {r : Record} (hr : d.record? i = some r) (hm : r.mode = .receive) :
      Withheld d i w (.wrongMode i .receive)
  | room {r : Record} {size : Nat} (hr : d.record? i = some r) (hm : r.mode = .transmit)
      (hsize : d.datagramSize i = .ok size) (h : w.available < size) :
      Withheld d i w (.overflow size w.available)

/-- A datagram laid at the position of a writer: the writer moves behind it, and every byte in
front of it and behind it is as it was. -/
structure Laid (bytes : List UInt8) (before after : Writer) : Prop where
  room : bytes.length ≤ before.available
  position : after.position = before.position + bytes.length
  front : after.buffer.take before.position = before.buffer.take before.position
  new : (after.buffer.drop before.position).take bytes.length = bytes
  behind : after.buffer.drop after.position = before.buffer.drop after.position
  length : after.buffer.length = before.buffer.length

section Bytes

variable {d : Dictionary} {r : Record} {w : Writer}

theorem isDatagram_iff {bytes : List UInt8} : IsDatagram d r bytes ↔ bytes = d.datagram r := by
  constructor
  · intro h
    cases h with
    | bare h => simp [datagram, trailer, h, Record.bytes]
    | checked h hsum => simp [datagram, trailer, h, Record.bytes, halfBytes_eq, hsum]
  · rintro rfl
    cases h : d.config.integrity with
    | none =>
      have hbare : d.datagram r = r.header.bytes ++ r.payload.bytes := by
        simp [datagram, trailer, h, Record.bytes]
      exact hbare ▸ .bare h
    | some checksum =>
      have hchecked : d.datagram r = r.header.bytes ++ r.payload.bytes ++
          halfBytes (checksum (r.header.bytes ++ r.payload.bytes)) := by
        simp [datagram, trailer, h, Record.bytes]
      rw [hchecked, halfBytes_eq]
      exact .checked h rfl

theorem laid_lay {bytes : List UInt8} (hp : w.position ≤ w.buffer.length)
    (h : bytes.length ≤ w.available) : Laid bytes w (w.lay bytes) := by
  have hfront : (w.buffer.take w.position).length = w.position := by
    rw [List.length_take, Nat.min_eq_left hp]
  have hbuffer : (w.lay bytes).buffer = w.buffer.take w.position ++
      (bytes ++ w.buffer.drop (w.position + bytes.length)) := by
    rw [Writer.lay, List.append_assoc]
  have hrest : (w.lay bytes).buffer.drop w.position =
      bytes ++ w.buffer.drop (w.position + bytes.length) := by
    rw [hbuffer]
    exact List.drop_left' hfront
  refine ⟨h, rfl, ?_, ?_, ?_, Writer.length_lay h⟩
  · rw [hbuffer]
    exact List.take_left' hfront
  · rw [hrest]
    exact List.take_left' rfl
  · have hposition : (w.lay bytes).position = w.position + bytes.length := rfl
    rw [hposition, ← List.drop_drop, hrest]
    exact List.drop_left' rfl

end Bytes

section Exits

variable {d : Dictionary} {i : Identity} {w : Writer}

theorem datagramSize_of_record? {r : Record} (hr : d.record? i = some r) :
    d.datagramSize i = .ok (d.sizeOf r) := by
  rw [datagramSize, record_eq_ok_iff.2 hr]
  rfl

theorem Withheld.emit_eq {e : Error} (h : Withheld d i w e) : d.emit i w = (.error e, w) := by
  cases h with
  | unknown h => simp [emit, record, h]
  | incoming hr hm => simp [emit, record, hr, hm]
  | room hr hm hsize h =>
    cases hsize.symm.trans (datagramSize_of_record? hr)
    simp [emit, record, hr, hm, h]

/-- All that can come of an emission: it is withheld and nothing is written, or it lies where
the writer stood. -/
theorem emit_cases (hd : d.WellFormed) (i : Identity) (w : Writer) :
    (∃ e, Withheld d i w e ∧ d.emit i w = (.error e, w)) ∨
      ∃ r, d.record? i = some r ∧ r.mode = .transmit ∧ d.sizeOf r ≤ w.available ∧
        d.emit i w = (.ok (d.sizeOf r), w.lay (d.datagram r)) := by
  cases hr : d.record? i with
  | none =>
    have hwithheld : Withheld d i w _ := .unknown hr
    exact Or.inl ⟨_, hwithheld, hwithheld.emit_eq⟩
  | some r =>
    cases hm : r.mode with
    | receive =>
      have hwithheld : Withheld d i w _ := .incoming hr hm
      exact Or.inl ⟨_, hwithheld, hwithheld.emit_eq⟩
    | transmit =>
      by_cases hroom : d.sizeOf r ≤ w.available
      · exact Or.inr ⟨r, rfl, hm, hroom, emit_of_room (hd.of_record? hr) hr hm hroom⟩
      · have hwithheld : Withheld d i w _ :=
          .room hr hm (datagramSize_of_record? hr) (Nat.lt_of_not_le hroom)
        exact Or.inl ⟨_, hwithheld, hwithheld.emit_eq⟩

theorem emit_error_iff (hd : d.WellFormed) {e : Error} :
    (d.emit i w).1 = .error e ↔ Withheld d i w e := by
  refine ⟨?_, fun h => congrArg Prod.fst h.emit_eq⟩
  intro he
  rcases emit_cases hd i w with ⟨e', hwithheld, hemit⟩ | ⟨r, -, -, -, hemit⟩
  · rw [hemit] at he
    cases he
    exact hwithheld
  · rw [hemit] at he
    cases he

theorem writer_of_emit_error (hd : d.WellFormed) {e : Error} (he : (d.emit i w).1 = .error e) :
    (d.emit i w).2 = w := by
  rw [((emit_error_iff hd).1 he).emit_eq]

theorem laid_of_emit_ok (hd : d.WellFormed) {n : Nat} (hn : (d.emit i w).1 = .ok n) :
    d.datagramSize i = .ok n ∧ ∃ r bytes, d.record? i = some r ∧ r.mode = .transmit ∧
      IsDatagram d r bytes ∧ bytes.length = n ∧ Laid bytes w (d.emit i w).2 := by
  rcases emit_cases hd i w with ⟨e, -, hemit⟩ | ⟨r, hr, hm, hroom, hemit⟩
  · rw [hemit] at hn
    cases hn
  · have hlength := length_datagram (d := d) (hd.of_record? hr)
    rw [hemit] at hn ⊢
    cases hn
    exact ⟨datagramSize_of_record? hr, r, d.datagram r, hr, hm, isDatagram_iff.2 rfl, hlength,
      laid_lay (position_le_of_room hroom) (hlength ▸ hroom)⟩

theorem emitBytes_ok_iff (hd : d.WellFormed) {bytes : List UInt8} :
    d.emitBytes i = .ok bytes ↔
      ∃ r, d.record? i = some r ∧ r.mode = .transmit ∧ IsDatagram d r bytes := by
  constructor
  · intro h
    obtain ⟨r, hr, hm, rfl⟩ := emitBytes_eq_ok hd h
    exact ⟨r, hr, hm, isDatagram_iff.2 rfl⟩
  · rintro ⟨r, hr, hm, hbytes⟩
    rw [isDatagram_iff.1 hbytes]
    exact emitBytes_of_transmit (hd.of_record? hr) hr hm

/-- A datagram by itself is given just the room that it takes, so that room is no reason to
withhold it. -/
theorem emitBytes_error_iff (hd : d.WellFormed) {e : Error} :
    d.emitBytes i = .error e ↔ d.record? i = none ∧ e = .unknownIdentity i ∨
      ∃ r, d.record? i = some r ∧ r.mode = .receive ∧ e = .wrongMode i .receive := by
  cases hr : d.record? i with
  | none => simp [emitBytes, datagramSize, record, hr, Except.map, eq_comm]
  | some r =>
    cases hm : r.mode with
    | receive =>
      have hwithheld (w : Writer) : d.emit i w = (.error (.wrongMode i .receive), w) :=
        (Withheld.incoming hr hm).emit_eq
      simp [emitBytes, datagramSize_of_record? hr, hwithheld, hm, eq_comm]
    | transmit => simp [emitBytes_of_transmit (hd.of_record? hr) hr hm, hm]

end Exits

/-- A signal is emitted in full or not at all. It is withheld for one of three reasons and then
nothing is written; otherwise its datagram lies where the writer stood, as long as reported,
sealed over its own bytes, and nothing around it has changed. No record changes either way. By
itself a datagram has the same bytes, and room is no reason to withhold it. -/
theorem emit_all_or_nothing {d : Dictionary} (hd : d.Reachable) (i : Identity) (w : Writer) :
    (∀ e, (d.emit i w).1 = .error e ↔ Withheld d i w e) ∧
    (∀ e, (d.emit i w).1 = .error e → (d.emit i w).2 = w) ∧
    (∀ n, (d.emit i w).1 = .ok n → d.datagramSize i = .ok n ∧
      ∃ r bytes, d.record? i = some r ∧ r.mode = .transmit ∧ IsDatagram d r bytes ∧
        r.header.bytes.length = 8 ∧ bytes.length = n ∧ Laid bytes w (d.emit i w).2) ∧
    (∀ now, d.call ⟨now, .emit i w⟩ = (.emitted (d.emit i w).1 (d.emit i w).2, d)) ∧
    (∀ bytes, d.emitBytes i = .ok bytes ↔
      ∃ r, d.record? i = some r ∧ r.mode = .transmit ∧ IsDatagram d r bytes) ∧
    ∀ e, d.emitBytes i = .error e ↔ d.record? i = none ∧ e = .unknownIdentity i ∨
      ∃ r, d.record? i = some r ∧ r.mode = .receive ∧ e = .wrongMode i .receive := by
  have hwf := hd.wellFormed
  refine ⟨fun e => emit_error_iff hwf, fun e => writer_of_emit_error hwf, ?_, fun now => rfl,
    fun bytes => emitBytes_ok_iff hwf, fun e => emitBytes_error_iff hwf⟩
  intro n hn
  obtain ⟨hsize, r, bytes, hr, hm, hbytes, hlength, hlaid⟩ := laid_of_emit_ok hwf hn
  exact ⟨hsize, r, bytes, hr, hm, hbytes, r.header.length_bytes, hlength, hlaid⟩

/-- A buffer with three bytes written and room for one datagram of the sample node. -/
def sampleWriter : Writer :=
  ⟨[1, 2, 3, 4, 5, 6, 7, 8, 9, 10, 11, 12, 13, 14, 15, 16, 17, 18, 19, 20], 3⟩

/-- One datagram is laid and the bytes around it stay; another one does not fit. -/
theorem sampleWriter_takes_one :
    sampleSource.dictionary.Reachable ∧
    ∃ r bytes, IsDatagram sampleSource.dictionary r bytes ∧ r.payload = .integer 0 ∧
      Laid bytes sampleWriter (sampleSource.dictionary.emit ⟨10, 20⟩ sampleWriter).2 ∧
      (sampleSource.dictionary.emit ⟨10, 20⟩ sampleWriter).2 =
        ⟨[1, 2, 3, 7, 0x90, 10, 20, 0, 0, 0, 0, 0, 0, 0, 0, 0x77, 0x7f, 18, 19, 20], 17⟩ ∧
      Withheld sampleSource.dictionary ⟨10, 20⟩
        (sampleSource.dictionary.emit ⟨10, 20⟩ sampleWriter).2 (.overflow 14 3) := by
  have hd : sampleSource.dictionary.Reachable := .build ((Builder.Reachable.new _).attemptAll _)
  have hfirst : (sampleSource.dictionary.emit ⟨10, 20⟩ sampleWriter).1 = .ok 14 := by
    decide +kernel
  have hsecond : (sampleSource.dictionary.emit ⟨10, 20⟩
      (sampleSource.dictionary.emit ⟨10, 20⟩ sampleWriter).2).1 = .error (.overflow 14 3) := by
    decide +kernel
  have hpayload : (sampleSource.dictionary.record? ⟨10, 20⟩).map (·.payload) =
      some (.integer 0) := by decide +kernel
  obtain ⟨-, -, hlaid, -⟩ := emit_all_or_nothing hd ⟨10, 20⟩ sampleWriter
  obtain ⟨-, r, bytes, hr, -, hbytes, -, -, hmoved⟩ := hlaid 14 hfirst
  obtain ⟨hwithheld, -⟩ := emit_all_or_nothing hd ⟨10, 20⟩
    (sampleSource.dictionary.emit ⟨10, 20⟩ sampleWriter).2
  rw [hr] at hpayload
  exact ⟨hd, r, bytes, hbytes, Option.some.inj hpayload, hmoved, by decide +kernel,
    (hwithheld _).1 hsecond⟩

end Dictionary
end InstrumentBus
