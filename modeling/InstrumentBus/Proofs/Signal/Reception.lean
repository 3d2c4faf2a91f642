import InstrumentBus.Signal.Record

/-!
# Receiving datagrams

What a record makes of bytes offered to it. Whether it takes a datagram in depends
on the signal alone and not on the value held; what becomes of the datagram is then
decided by the arbitration rule on its header.
-/

namespace InstrumentBus
namespace Signal

open Wire

structure Offer where
  bytes : List UInt8
  now : UInt32

namespace Offer

def header (o : Offer) : Header := Header.ofBytes o.bytes

def payload (k : Kind) (o : Offer) : Payload := Payload.ofBytes k (o.bytes.drop headerSize)

end Offer

theorem Payload.kind_ofBytes {k : Kind} {bytes : List UInt8}
    (h : k.extent ≤ bytes.length) : (Payload.ofBytes k bytes).kind = k := by
  cases k with
  | scaled resolution => rfl
  | integer => rfl
  | buffer length =>
    have hl : wordSize + length ≤ bytes.length := h
    have hb : length ≤ bytes.length - wordSize := by omega
    simp [Payload.ofBytes, Payload.kind, hb]

namespace Record

/-- Records that differ at most in what they hold. -/
structure SameSignal (r s : Record) : Prop where
  descriptor : r.descriptor = s.descriptor
  mode : r.mode = s.mode
  kind : r.payload.kind = s.payload.kind

theorem SameSignal.refl (r : Record) : SameSignal r r := ⟨rfl, rfl, rfl⟩

theorem SameSignal.trans {r s t : Record} (hrs : SameSignal r s) (hst : SameSignal s t) :
    SameSignal r t :=
  ⟨hrs.descriptor.trans hst.descriptor, hrs.mode.trans hst.mode, hrs.kind.trans hst.kind⟩

theorem SameSignal.identity {r s : Record} (h : SameSignal r s) : r.identity = s.identity :=
  congrArg Descriptor.identity h.descriptor

theorem receive_of_transmit {r : Record} (hm : r.mode = .transmit) (reader : Reader)
    (now : UInt32) :
    r.receive reader now = (.error (.wrongMode r.identity .transmit), r, reader) := by
  simp [receive, require, hm]

theorem receive_of_decode_error {r : Record} {reader : Reader} {e : Error}
    (hm : r.mode = .receive) (hd : r.decode reader = .error e) (now : UInt32) :
    r.receive reader now = (.error e, r, reader) := by
  simp [receive, require, hm, hd]

theorem receive_of_decode {r : Record} {reader after : Reader} {candidate : Header}
    {payload : Payload} (hm : r.mode = .receive)
    (hd : r.decode reader = .ok (candidate, payload, after)) (now : UInt32) :
    r.receive reader now =
      (.ok (r.offer candidate payload now).1, (r.offer candidate payload now).2, after) := by
  simp [receive, require, hm, hd]

/-- All that can come of offering a datagram: a fault that changes nothing, or a decision
of the arbitration rule on a datagram that could be decoded. -/
theorem receive_cases (r : Record) (reader : Reader) (now : UInt32) :
    (∃ e, r.receive reader now = (.error e, r, reader)) ∨
    (∃ candidate payload after, r.mode = .receive ∧
      r.decode reader = .ok (candidate, payload, after) ∧
      r.receive reader now =
        (.ok (r.offer candidate payload now).1, (r.offer candidate payload now).2, after)) := by
  cases hm : r.mode with
  | transmit => exact Or.inl ⟨_, receive_of_transmit hm reader now⟩
  | receive =>
    cases hd : r.decode reader with
    | error e => exact Or.inl ⟨e, receive_of_decode_error hm hd now⟩
    | ok out =>
      obtain ⟨candidate, payload, after⟩ := out
      exact Or.inr ⟨candidate, payload, after, rfl, rfl, receive_of_decode hm hd now⟩

theorem offer_sameSignal {r : Record} {payload : Payload}
    (hk : payload.kind = r.payload.kind) (candidate : Header) (now : UInt32) :
    SameSignal (r.offer candidate payload now).2 r := by
  unfold offer
  split
  · exact ⟨rfl, rfl, hk⟩
  · exact SameSignal.refl r

theorem receive_sameSignal (r : Record) (reader : Reader) (now : UInt32) :
    SameSignal (r.receive reader now).2.1 r := by
  rcases r.receive_cases reader now with ⟨e, he⟩ | ⟨candidate, payload, after, _, hd, he⟩
  · rw [he]
    exact SameSignal.refl r
  · rw [he]
    obtain ⟨hle, -, -, hout⟩ := decode_eq_ok_iff.1 hd
    cases hout
    apply offer_sameSignal
    apply Payload.kind_ofBytes
    rw [List.length_drop, Reader.length_remaining]
    omega

def Takes (r : Record) (bytes : List UInt8) : Prop :=
  ∃ now outcome, (r.receive (Reader.ofBytes bytes) now).1 = .ok outcome

theorem takes_iff {r : Record} {bytes : List UInt8} :
    r.Takes bytes ↔ r.mode = .receive ∧ headerSize + r.payload.kind.extent ≤ bytes.length ∧
      (Header.ofBytes bytes).identity = r.identity ∧
      r.payload.kind.Announced (bytes.drop headerSize) := by
  constructor
  · rintro ⟨now, outcome, h⟩
    rcases r.receive_cases (Reader.ofBytes bytes) now with
      ⟨e, he⟩ | ⟨candidate, payload, after, hm, hd, -⟩
    · rw [he] at h
      cases h
    · obtain ⟨hle, hi, ha, -⟩ := decode_eq_ok_iff.1 hd
      exact ⟨hm, hle, hi, ha⟩
  · rintro ⟨hm, hle, hi, ha⟩
    have hd : r.decode (Reader.ofBytes bytes) = .ok _ := decode_eq_ok_iff.2 ⟨hle, hi, ha, rfl⟩
    exact ⟨0, _, congrArg Prod.fst (receive_of_decode hm hd 0)⟩

theorem SameSignal.takes_iff {r s : Record} (h : SameSignal r s) {bytes : List UInt8} :
    r.Takes bytes ↔ s.Takes bytes := by
  rw [Record.takes_iff, Record.takes_iff, h.mode, h.identity, h.kind]

def adopt (r : Record) (o : Offer) : Record :=
  { r with header := o.header, payload := o.payload r.payload.kind, updated := o.now }

theorem SameSignal.adopt_eq {r s : Record} (h : SameSignal r s) (o : Offer) :
    r.adopt o = s.adopt o := by
  simp only [adopt, h.descriptor, h.mode, h.kind]

def take (r : Record) (o : Offer) : Record := (r.receive (Reader.ofBytes o.bytes) o.now).2.1

def takeAll (r : Record) (offers : List Offer) : Record := offers.foldl take r

@[simp] theorem takeAll_nil (r : Record) : r.takeAll [] = r := rfl

theorem takeAll_append (r : Record) (a b : List Offer) :
    r.takeAll (a ++ b) = (r.takeAll a).takeAll b := by
  simp [takeAll, List.foldl_append]

theorem takeAll_concat (r : Record) (offers : List Offer) (o : Offer) :
    r.takeAll (offers ++ [o]) = (r.takeAll offers).take o := by
  rw [takeAll_append]
  rfl

theorem takeAll_sameSignal (r : Record) (offers : List Offer) :
    SameSignal (r.takeAll offers) r := by
  induction offers generalizing r with
  | nil => exact SameSignal.refl r
  | cons o rest ih => exact (ih (r.take o)).trans (receive_sameSignal r _ _)

theorem adopt_sameSignal {r : Record} {o : Offer} (h : r.Takes o.bytes) :
    SameSignal (r.adopt o) r := by
  refine ⟨rfl, rfl, Payload.kind_ofBytes ?_⟩
  have hle := (takes_iff.1 h).2.1
  rw [List.length_drop]
  omega

theorem receive_of_takes {r : Record} {o : Offer} (h : r.Takes o.bytes) :
    r.receive (Reader.ofBytes o.bytes) o.now =
      (.ok (r.offer o.header (o.payload r.payload.kind) o.now).1,
        (r.offer o.header (o.payload r.payload.kind) o.now).2,
        (Reader.ofBytes o.bytes).advance (headerSize + r.payload.kind.extent)) := by
  obtain ⟨hm, hle, hi, ha⟩ := takes_iff.1 h
  have hd : r.decode (Reader.ofBytes o.bytes) = .ok _ :=
    decode_eq_ok_iff.2 ⟨hle, hi, ha, rfl⟩
  exact receive_of_decode hm hd o.now

theorem take_of_accepts {r : Record} {o : Offer} (h : r.Takes o.bytes)
    (ha : r.accepts o.header o.now = true) :
    (r.receive (Reader.ofBytes o.bytes) o.now).1 = .ok .accepted ∧ r.take o = r.adopt o := by
  rw [take, receive_of_takes h, offer_of_accepts ha]
  exact ⟨rfl, rfl⟩

theorem take_of_not_accepts {r : Record} {o : Offer} (h : r.Takes o.bytes)
    (ha : r.accepts o.header o.now = false) :
    (r.receive (Reader.ofBytes o.bytes) o.now).1 = .ok .rejected ∧ r.take o = r := by
  rw [take, receive_of_takes h, offer_of_not_accepts ha]
  exact ⟨rfl, rfl⟩

/-- A datagram above the priority held is accepted. -/
theorem accepts_of_priority_lt {r : Record} {o : Offer} (h : r.Takes o.bytes)
    (hlt : r.header.priority.byte < o.header.priority.byte) :
    r.accepts o.header o.now = true := by
  obtain ⟨-, -, hidentity, -⟩ := takes_iff.1 h
  exact accepts_eq_true_iff.2 ⟨hidentity, Or.inr (Or.inl (Priority.above_iff_lt.2 hlt))⟩

theorem identity_of_takes {r : Record} {o : Offer} (h : r.Takes o.bytes) :
    o.header.identity = r.identity := (takes_iff.1 h).2.2.1

end Record

def sampleDatagram (device priority : UInt8) (timestamp value : UInt32) : List UInt8 :=
  Header.bytes ⟨device, ⟨priority⟩, ⟨10, 20⟩, timestamp⟩ ++ wordBytes32 value

end Signal
end InstrumentBus
