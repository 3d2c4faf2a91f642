import InstrumentBus.Dictionary.Config
import InstrumentBus.Signal.Record
import InstrumentBus.Catalog.Basic

/-!
# The signals of a node

A dictionary holds the records of one node in ascending order of identity. It is
filled by registration, after which the set of its signals never changes. Every
operation is told the local time. Taking a datagram in and sending one yield their
result together with the dictionary, the reader or the writer as they are left.
-/

namespace InstrumentBus
namespace Dictionary

open Numeric Wire Signal

inductive Error where
  /-- The input ends before the datagram does. -/
  | underrun (needed available : Nat)
  /-- The output has no room for the datagram. -/
  | overflow (needed available : Nat)
  | unknownIdentity (identity : Identity)
  | alreadyRegistered (identity : Identity)
  | wrongMode (identity : Identity) (mode : Mode)
  | integrityMismatch (computed received : UInt16)
  | signal (e : Signal.Error)
  deriving DecidableEq

def hex16 (n : UInt16) : String := "0x" ++ Text.Hex.encodeText (halfBytes n)

def Error.message : Error → String
  | .underrun needed available =>
    s!"buffer underrun ({needed} bytes needed, {available} available)"
  | .overflow needed available =>
    s!"buffer overflow ({needed} bytes needed, {available} available)"
  | .unknownIdentity identity => s!"unknown signal identity {identity.text}"
  | .alreadyRegistered identity => s!"signal {identity.text} is already registered"
  | .wrongMode identity mode => s!"signal {identity.text} is in {mode.text} mode"
  | .integrityMismatch computed received =>
    s!"integrity check failed (computed {hex16 computed}, received {hex16 received})"
  | .signal e => e.message

/-- A fault of a record as a fault of the dictionary: what both can say is said by
the dictionary. -/
def Error.ofSignal : Signal.Error → Error
  | .wire (.underrun needed available) => .underrun needed available
  | .wire (.overflow needed available) => .overflow needed available
  | .wrongMode identity mode => .wrongMode identity mode
  | e => .signal e

/-- The records with a new one in the place of the one of its identity. -/
def replaceRecord (r : Record) (records : List Record) : List Record :=
  records.map fun s => if s.identity = r.identity then r else s

/-- Registrations before any traffic. -/
structure Builder where
  config : Config
  records : List Record

namespace Builder

def new (config : Config) : Builder := ⟨config, []⟩

def contains (b : Builder) (identity : Identity) : Bool :=
  b.records.any (·.identity == identity)

/-- A fresh record, stamped with the node's device and priority if it transmits. -/
def record (config : Config) (descriptor : Descriptor) (kind : Kind) (mode : Mode) :
    Except Signal.Error Record :=
  (Record.new descriptor kind mode).map fun r =>
    match mode with
    | .receive => r
    | .transmit =>
      { r with header := { r.header with device := config.device, priority := config.priority } }

/-- Register a signal that is not registered yet. -/
def register (b : Builder) (descriptor : Descriptor) (kind : Kind) (mode : Mode) :
    Except Error Builder :=
  if b.contains descriptor.identity then .error (.alreadyRegistered descriptor.identity)
  else
    match record b.config descriptor kind mode with
    | .error e => .error (.ofSignal e)
    | .ok r => .ok { b with records := Identity.insertInto Record.identity r b.records }

/-- Register definitions one after the other, up to the first that fails; those
before it stay registered. -/
def registerAll (b : Builder) (modeOf : Catalog.Definition → Mode) :
    List Catalog.Definition → Except Error Unit × Builder
  | [] => (.ok (), b)
  | d :: rest =>
    match b.register d.descriptor d.kind (modeOf d) with
    | .error e => (.error e, b)
    | .ok b => b.registerAll modeOf rest

/-- Register every signal of a catalog in order of identity. -/
def registerCatalog (b : Builder) (catalog : Catalog) (modeOf : Catalog.Definition → Mode) :
    Except Error Unit × Builder :=
  b.registerAll modeOf catalog.definitions

end Builder
end Dictionary

/-- The records of a node. -/
structure Dictionary where
  config : Dictionary.Config
  records : List Signal.Record

namespace Dictionary

open Numeric Wire Signal

def Builder.build (b : Builder) : Dictionary := ⟨b.config, b.records⟩

def identities (d : Dictionary) : List Identity := d.records.map (·.identity)

def size (d : Dictionary) : Nat := d.records.length

def record? (d : Dictionary) (identity : Identity) : Option Record :=
  d.records.find? (·.identity == identity)

def contains (d : Dictionary) (identity : Identity) : Bool := (d.record? identity).isSome

/-- The record of an identity that must be registered. -/
def record (d : Dictionary) (identity : Identity) : Except Error Record :=
  match d.record? identity with
  | some r => .ok r
  | none => .error (.unknownIdentity identity)

def replace (d : Dictionary) (r : Record) : Dictionary :=
  { d with records := replaceRecord r d.records }

/-- The size of a datagram of a signal with its trailer. -/
def sizeOf (d : Dictionary) (r : Record) : Nat := r.packetSize + d.config.trailerSize

def datagramSize (d : Dictionary) (identity : Identity) : Except Error Nat :=
  (d.record identity).map d.sizeOf

/-- Compare the checksum behind a datagram with the one of its bytes. -/
def verify (d : Dictionary) (packet : Nat) (input : List UInt8) : Except Error Unit :=
  match d.config.integrity with
  | none => .ok ()
  | some checksum =>
    match (Reader.ofBytes input).bytes packet with
    | .error e => .error (.ofSignal (.wire e))
    | .ok (body, tail) =>
      match tail.half with
      | .error e => .error (.ofSignal (.wire e))
      | .ok (received, _) =>
        if checksum body = received then .ok ()
        else .error (.integrityMismatch (checksum body) received)

/-- The reader behind the checksum it stands at, if datagrams carry one. -/
def skipTrailer (d : Dictionary) (reader : Reader) : Except Wire.Error Reader :=
  match d.config.integrity with
  | none => .ok reader
  | some _ => reader.half.map (·.2)

/-- Take in one datagram: the result, and the dictionary and the reader after it. The
header names the signal, whose record gives the size; the datagram must be complete and
its checksum right before the record sees it. -/
def ingest (d : Dictionary) (now : UInt32) (reader : Reader) :
    Except Error Outcome × Dictionary × Reader :=
  match Header.peek reader with
  | .error e => (.error (.ofSignal (.wire e)), d, reader)
  | .ok header =>
    match d.record header.identity with
    | .error e => (.error e, d, reader)
    | .ok r =>
      if reader.available < d.sizeOf r then
        (.error (.underrun (d.sizeOf r) reader.available), d, reader)
      else
        match d.verify r.packetSize reader.remaining with
        | .error e => (.error e, d, reader)
        | .ok () =>
          match r.receive reader now with
          | (.error e, r, _) => (.error (.ofSignal e), d.replace r, reader)
          | (.ok outcome, r, probe) =>
            -- The record has changed by now, so a fault here would leave it changed.
            match d.skipTrailer probe with
            | .error e => (.error (.ofSignal (.wire e)), d.replace r, reader)
            | .ok after => (.ok outcome, d.replace r, after)

/-- Write the datagram of a signal in transmit mode and its trailer, if there is room for
both: the number of bytes written, and the writer after it. -/
def emit (d : Dictionary) (identity : Identity) (w : Writer) : Except Error Nat × Writer :=
  match d.record identity with
  | .error e => (.error e, w)
  | .ok r =>
    if r.mode ≠ .transmit then (.error (.wrongMode identity r.mode), w)
    else if w.available < d.sizeOf r then
      (.error (.overflow (d.sizeOf r) w.available), w)
    else
      match r.write w with
      | (.error e, sent) => (.error (.ofSignal e), sent)
      | (.ok (), sent) =>
        match d.config.integrity with
        | none => (.ok (d.sizeOf r), sent)
        | some checksum =>
          match sent.put (halfBytes (checksum (sent.written.drop w.position))) with
          | (.error e, sealed) => (.error (.ofSignal (.wire e)), sealed)
          | (.ok (), sealed) => (.ok (d.sizeOf r), sealed)

/-- The datagram of a signal in transmit mode with its trailer. -/
def emitBytes (d : Dictionary) (identity : Identity) : Except Error (List UInt8) :=
  match d.datagramSize identity with
  | .error e => .error e
  | .ok size =>
    match d.emit identity (Writer.ofBuffer (List.replicate size 0)) with
    | (.error e, _) => .error e
    | (.ok written, w) => .ok (w.buffer.take written)

/-- Apply a local change to a signal. -/
def change (d : Dictionary) (now : UInt32) (identity : Identity) (c : Change) :
    Except Error Dictionary :=
  match d.record identity with
  | .error e => .error e
  | .ok r =>
    match r.change c now with
    | .error e => .error (.ofSignal e)
    | .ok r => .ok (d.replace r)

/-- A view of the value of a signal that must have a given shape. -/
def view {α : Type} (d : Dictionary) (identity : Identity) (shape : Shape)
    (read : Payload → Option α) : Except Error α :=
  match d.record identity with
  | .error e => .error e
  | .ok r =>
    match read r.payload with
    | some x => .ok x
    | none => .error (.signal (.shapeMismatch shape r.payload.shape))

def scaled (d : Dictionary) (identity : Identity) : Except Error Binary64 :=
  d.view identity .scaled fun p => p.scaled?.map (·.value)

def integer (d : Dictionary) (identity : Identity) : Except Error UInt32 :=
  d.view identity .integer Payload.integer?

def buffer (d : Dictionary) (identity : Identity) : Except Error (List UInt8) :=
  d.view identity .buffer Payload.bytes?

def isValid (d : Dictionary) (now : UInt32) (identity : Identity) : Except Error Bool :=
  (d.record identity).map (·.isValid now)

/-- The value of a scaled signal while it counts. -/
def scaledIfValid (d : Dictionary) (now : UInt32) (identity : Identity) :
    Except Error (Option Binary64) :=
  match d.scaled identity, d.isValid now identity with
  | .ok x, .ok valid => .ok (if valid then some x else none)
  | .error e, _ | _, .error e => .error e

theorem available_skipTrailer_le {d : Dictionary} {reader reader' : Reader}
    (h : d.skipTrailer reader = .ok reader') : reader'.available ≤ reader.available := by
  unfold skipTrailer at h
  split at h
  · cases h
    exact Nat.le_refl _
  · rw [Reader.half_eq] at h
    split at h
    · cases h
      rw [Reader.available_advance]
      omega
    · cases h

/-- A datagram taken in lies behind the reader. -/
theorem available_lt_of_ingest {d d' : Dictionary} {now : UInt32} {reader reader' : Reader}
    {outcome : Outcome} (h : d.ingest now reader = (.ok outcome, d', reader')) :
    reader'.available < reader.available := by
  unfold ingest at h
  split at h
  · cases h
  · split at h
    · cases h
    · split at h
      · cases h
      · split at h
        · cases h
        · split at h
          · cases h
          · next hr =>
            obtain ⟨n, hn, ha, rfl⟩ := Record.receive_advance hr
            split at h
            · cases h
            · next hs =>
              have hle := available_skipTrailer_le hs
              cases h
              simp only [Reader.available_advance, headerSize] at *
              omega

/-- One datagram of a run of them: its header if it is complete, what became of
it, and where the reader stands after it. -/
structure Arrival where
  header : Option Header
  result : Except Error Outcome
  position : Nat

/-- Take in datagrams until the bytes are used up or one fails. -/
def drain (d : Dictionary) (now : UInt32) (reader : Reader) : List Arrival × Dictionary :=
  if reader.available = 0 then ([], d)
  else
    let header := (Header.peek reader).toOption
    match _h : d.ingest now reader with
    | (.error e, next, after) => ([⟨header, .error e, after.position⟩], next)
    | (.ok outcome, next, after) =>
      let (arrivals, last) := drain next now after
      (⟨header, .ok outcome, after.position⟩ :: arrivals, last)
termination_by reader.available
decreasing_by exact available_lt_of_ingest ‹_›

end Dictionary
end InstrumentBus
