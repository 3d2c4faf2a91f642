import InstrumentBus.Signal.Header
import InstrumentBus.Signal.Payload

/-!
# Signal records and arbitration

A record holds one signal on one node: the header and payload that count now, and
the local time at which they came to count. Datagrams compete for a record in
receive mode. A newcomer is accepted if the held value is not valid any more, if
its priority is higher, or if it comes from the same device and is not older.
-/

namespace InstrumentBus
namespace Signal

open Numeric Wire

inductive Outcome where
  | accepted
  | rejected
  deriving DecidableEq, Repr

def Outcome.text : Outcome → String
  | .accepted => "accepted"
  | .rejected => "rejected"

structure Record where
  descriptor : Descriptor
  mode : Mode
  header : Header
  payload : Payload
  /-- The local time of the last accepted datagram or local change. -/
  updated : UInt32
  deriving DecidableEq

/-- A local change of a signal in transmit mode. -/
inductive Change where
  | value (v : ValueChange)
  | priority (p : Priority)
  | device (d : UInt8)

namespace Record

def identity (r : Record) : Identity := r.descriptor.identity

/-- A record with a zero payload and the header of a silent signal. -/
def new (descriptor : Descriptor) (kind : Kind) (mode : Mode) : Except Error Record :=
  (Payload.zero kind).map fun payload =>
    ⟨descriptor, mode, Header.silent descriptor.identity, payload, 0⟩

/-- The size of a datagram of this signal. -/
def packetSize (r : Record) : Nat := headerSize + r.payload.size

/-- Whether the held value counts at a local time: its source is healthy, and the
time since the last update, on a clock that wraps, is within the timeout. -/
def isValid (r : Record) (now : UInt32) : Bool :=
  r.header.priority.healthy && now - r.updated ≤ r.descriptor.timeout

/-- Whether a datagram with this header takes the place of the held value. -/
def accepts (r : Record) (candidate : Header) (now : UInt32) : Bool :=
  candidate.identity = r.identity
    && (!r.isValid now
      || candidate.priority.above r.header.priority
      || (candidate.device = r.header.device && r.header.timestamp ≤ candidate.timestamp))

def require (r : Record) (mode : Mode) : Except Error Unit :=
  if r.mode = mode then .ok () else .error (.wrongMode r.identity r.mode)

/-- The datagram of the held value. -/
def bytes (r : Record) : List UInt8 := r.header.bytes ++ r.payload.bytes

def write (r : Record) (w : Writer) : Except Error Unit × Writer :=
  match r.require .transmit with
  | .error e => (.error e, w)
  | .ok () =>
    match sending (r.header.write w) with
    | (.error e, w) => (.error e, w)
    | (.ok (), w) => r.payload.write w

/-- The header and payload of a datagram for this record. -/
def decode (r : Record) (reader : Reader) : Except Error (Header × Payload × Reader) :=
  match Header.read reader with
  | .error e => .error (.wire e)
  | .ok (candidate, reader) =>
    if candidate.identity ≠ r.identity then
      .error (.identityMismatch r.identity candidate.identity)
    else
      match r.payload.read reader with
      | .error e => .error e
      | .ok (payload, reader) => .ok (candidate, payload, reader)

/-- The record after a datagram with this header and payload has been offered. -/
def offer (r : Record) (candidate : Header) (payload : Payload) (now : UInt32) :
    Outcome × Record :=
  if r.accepts candidate now then
    (.accepted, { r with header := candidate, payload := payload, updated := now })
  else (.rejected, r)

/-- Take a datagram in: the result, and the record and the reader after it. The reader
moves past the datagram whether or not it is accepted. -/
def receive (r : Record) (reader : Reader) (now : UInt32) :
    Except Error Outcome × Record × Reader :=
  match r.require .receive with
  | .error e => (.error e, r, reader)
  | .ok () =>
    match r.decode reader with
    | .error e => (.error e, r, reader)
    | .ok (candidate, payload, after) =>
      let (outcome, r) := r.offer candidate payload now
      (.ok outcome, r, after)

/-- Stamp a local change of the value. -/
def touch (r : Record) (now : UInt32) : Record :=
  { r with updated := now, header := { r.header with timestamp := now } }

/-- Apply a local change. Only a change of the value is stamped with the time. -/
def change (r : Record) (c : Change) (now : UInt32) : Except Error Record :=
  match r.require .transmit with
  | .error e => .error e
  | .ok () =>
    match c with
    | .value v => (r.payload.change v).map fun payload => { r with payload := payload }.touch now
    | .priority p => .ok { r with header := { r.header with priority := p } }
    | .device d => .ok { r with header := { r.header with device := d } }

/-- A local change made in place: whether it was made, and the record after it. -/
def amend (r : Record) (c : Change) (now : UInt32) : Except Error Unit × Record :=
  match r.require .transmit with
  | .error e => (.error e, r)
  | .ok () =>
    match c with
    | .value v =>
      match r.payload.amend v with
      | (.error e, payload) => (.error e, { r with payload := payload })
      | (.ok (), payload) => (.ok (), { r with payload := payload }.touch now)
    | .priority p => (.ok (), { r with header := { r.header with priority := p } })
    | .device d => (.ok (), { r with header := { r.header with device := d } })

theorem new_eq_ok_iff {descriptor : Descriptor} {kind : Kind} {mode : Mode} {r : Record} :
    new descriptor kind mode = .ok r ↔ ∃ payload, Payload.zero kind = .ok payload ∧
      r = ⟨descriptor, mode, Header.silent descriptor.identity, payload, 0⟩ := by
  unfold new
  cases Payload.zero kind with
  | error e => simp [Except.map]
  | ok payload => simp [Except.map, eq_comm]

/-- A change made in place leaves the changed record, if there is one. -/
theorem amend_eq (r : Record) (c : Change) (now : UInt32) :
    r.amend c now = match r.change c now with
      | .ok r' => (.ok (), r')
      | .error e => (.error e, r) := by
  unfold amend change
  cases r.require .transmit with
  | error e => rfl
  | ok _ =>
    cases c with
    | value v =>
      dsimp only
      rw [Payload.amend_eq]
      cases r.payload.change v <;> rfl
    | priority p => rfl
    | device d => rfl

theorem accepts_eq_true_iff {r : Record} {candidate : Header} {now : UInt32} :
    r.accepts candidate now = true ↔ candidate.identity = r.identity ∧
      (r.isValid now = false ∨ candidate.priority.above r.header.priority = true ∨
        (candidate.device = r.header.device ∧ r.header.timestamp ≤ candidate.timestamp)) := by
  simp [accepts, or_assoc]

theorem offer_of_accepts {r : Record} {candidate : Header} {payload : Payload} {now : UInt32}
    (h : r.accepts candidate now = true) :
    r.offer candidate payload now =
      (.accepted, { r with header := candidate, payload := payload, updated := now }) := by
  rw [offer, if_pos h]

theorem offer_of_not_accepts {r : Record} {candidate : Header} {payload : Payload}
    {now : UInt32} (h : r.accepts candidate now = false) :
    r.offer candidate payload now = (.rejected, r) := by
  rw [offer, if_neg (by simp [h])]

theorem outcome_offer (r : Record) (candidate : Header) (payload : Payload) (now : UInt32) :
    (r.offer candidate payload now).1 =
      if r.accepts candidate now then .accepted else .rejected := by
  unfold offer
  split <;> rfl

theorem offer_of_accepted {r : Record} {candidate : Header} {payload : Payload} {now : UInt32}
    (h : (r.offer candidate payload now).1 = .accepted) :
    (r.offer candidate payload now).2 =
      { r with header := candidate, payload := payload, updated := now } := by
  cases ha : r.accepts candidate now with
  | true => rw [offer_of_accepts ha]
  | false =>
    rw [offer_of_not_accepts ha] at h
    cases h

theorem offer_of_rejected {r : Record} {candidate : Header} {payload : Payload} {now : UInt32}
    (h : (r.offer candidate payload now).1 = .rejected) :
    (r.offer candidate payload now).2 = r := by
  cases ha : r.accepts candidate now with
  | true =>
    rw [offer_of_accepts ha] at h
    cases h
  | false => rw [offer_of_not_accepts ha]

/-- A datagram is decoded if it is there in full, names the signal of the record and,
for a byte string, announces the length held. -/
theorem decode_eq_ok_iff {r : Record} {reader : Reader} {out : Header × Payload × Reader} :
    r.decode reader = .ok out ↔
      headerSize + r.payload.kind.extent ≤ reader.available ∧
      (Header.ofBytes reader.remaining).identity = r.identity ∧
      r.payload.kind.Announced (reader.remaining.drop headerSize) ∧
      out = (Header.ofBytes reader.remaining,
        Payload.ofBytes r.payload.kind (reader.remaining.drop headerSize),
        reader.advance (headerSize + r.payload.kind.extent)) := by
  by_cases hh : headerSize ≤ reader.available
  · by_cases hi : (Header.ofBytes reader.remaining).identity = r.identity
    · have hbody : r.decode reader =
          (r.payload.read (reader.advance headerSize)).map fun (payload, after) =>
            (Header.ofBytes reader.remaining, payload, after) := by
        simp only [decode, Header.read_of_le hh, hi, ne_eq, not_true_eq_false, ↓reduceIte]
        cases r.payload.read (reader.advance headerSize) <;> rfl
      rw [hbody]
      constructor
      · intro h
        cases hp : r.payload.read (reader.advance headerSize) with
        | error e => simp [hp, Except.map] at h
        | ok body =>
          obtain ⟨hle, ha, rfl⟩ := Payload.read_eq_ok_iff.1 hp
          rw [Reader.available_advance] at hle
          rw [Reader.remaining_advance] at ha
          simp only [hp, Except.map, Except.ok.injEq] at h
          rw [Reader.remaining_advance, Reader.advance_advance] at h
          exact ⟨by omega, hi, ha, h.symm⟩
      · rintro ⟨hle, -, ha, rfl⟩
        have hp : r.payload.read (reader.advance headerSize) = .ok _ :=
          Payload.read_eq_ok_iff.2 ⟨by rw [Reader.available_advance]; omega,
            by rw [Reader.remaining_advance]; exact ha, rfl⟩
        rw [hp, Reader.remaining_advance, Reader.advance_advance]
        rfl
    · simp [decode, Header.read_of_le hh, hi]
  · have hfull : ¬ headerSize + r.payload.kind.extent ≤ reader.available := by omega
    simp [decode, Header.read_of_lt (Nat.lt_of_not_le hh), hfull]

theorem decode_of_not_announced {r : Record} {reader : Reader} {length : Nat}
    (hle : headerSize + wordSize ≤ reader.available)
    (hi : (Header.ofBytes reader.remaining).identity = r.identity)
    (hk : r.payload.kind = .buffer length)
    (ha : (wordAt reader.remaining headerSize).toNat ≠ length) :
    r.decode reader =
      .error (.sizeMismatch length (wordAt reader.remaining headerSize).toNat) := by
  have hh : headerSize ≤ reader.available := by omega
  have hr : wordSize ≤ (reader.advance headerSize).available := by
    rw [Reader.available_advance]
    omega
  have hw : wordAt (reader.advance headerSize).remaining 0 =
      wordAt reader.remaining headerSize := by
    rw [Reader.remaining_advance, wordAt_drop, Nat.add_zero]
  have hp := Payload.read_of_not_announced hk hr (by rwa [hw])
  simp only [decode, Header.read_of_le hh, hi, ne_eq, not_true_eq_false, if_false, hp, hw]

/-- A datagram taken in is at least a header long. -/
theorem receive_advance {r r' : Record} {reader reader' : Reader} {now : UInt32}
    {outcome : Outcome} (h : r.receive reader now = (.ok outcome, r', reader')) :
    ∃ n, headerSize ≤ n ∧ n ≤ reader.available ∧ reader' = reader.advance n := by
  unfold receive at h
  split at h
  · cases h
  · split at h
    · cases h
    · next hd =>
      obtain ⟨hle, -, -, he⟩ := decode_eq_ok_iff.1 hd
      cases he
      cases h
      exact ⟨_, Nat.le_add_right _ _, hle, rfl⟩

end Record

/-- What can be asked of a single record. -/
inductive Record.Operation where
  | receive (bytes : List UInt8) (now : UInt32)
  | write (capacity : Nat)
  | change (c : Change) (now : UInt32)
  | accepts (candidate : Header) (now : UInt32)
  | isValid (now : UInt32)
  | views

inductive Record.Reply where
  /-- The outcome, and where the reader stands afterwards. -/
  | received (result : Except Error Outcome) (position : Nat)
  /-- Whether all was written, and the bytes written. -/
  | wrote (result : Except Error Unit) (bytes : List UInt8)
  | changed (result : Except Error Unit)
  | flag (b : Bool)
  | views (scaled : Option FixedPoint) (integer : Option UInt32) (bytes : Option (List UInt8))

/-- The reply to an operation, and the record after it. -/
def Record.perform (r : Record) : Record.Operation → Record.Reply × Record
  | .receive bytes now =>
    let (result, r, reader) := r.receive (Reader.ofBytes bytes) now
    (.received result reader.position, r)
  | .write capacity =>
    let (result, w) := r.write (Writer.ofBuffer (List.replicate capacity 0))
    (.wrote result w.written, r)
  | .change c now =>
    let (result, r) := r.amend c now
    (.changed result, r)
  | .accepts candidate now => (.flag (r.accepts candidate now), r)
  | .isValid now => (.flag (r.isValid now), r)
  | .views => (.views r.payload.scaled? r.payload.integer? r.payload.bytes?, r)

/-- Operations one after the other: each reply with the record after it. -/
def Record.session (r : Record) : List Record.Operation → List (Record.Reply × Record)
  | [] => []
  | op :: ops => r.perform op :: (r.perform op).2.session ops

end Signal
end InstrumentBus
