import InstrumentBus.Command.ReplayLog
import InstrumentBus.Command.Output
import InstrumentBus.Signal.Readout

/-!
# Replaying a log

The entries of a log go through a dictionary that receives every signal of a
catalog, the local time being the time of the entry. Every datagram is an event and
counts under its outcome; an error ends its entry. In the end the signals that were
ever accepted are shown.
-/

namespace InstrumentBus
namespace Command

open Signal Wire

/-- One datagram of an entry: the signal its header names, if it has a header, and
what became of it. -/
structure Event where
  line : Nat
  time : UInt32
  signal : Option Identity
  result : Except Dictionary.Error Outcome

def Event.outcomeText (e : Event) : String :=
  match e.result with
  | .ok outcome => outcome.text
  | .error _ => "error"

/-- What went wrong with the datagram, if anything did. -/
def Event.error? (e : Event) : Option Dictionary.Error :=
  match e.result with
  | .error e => some e
  | .ok _ => none

/-- A dictionary that receives every signal of a catalog. -/
def receiver (c : Catalog) : Except Failure Dictionary :=
  match (Dictionary.Builder.new .standard).registerCatalog c fun _ => .receive with
  | (.error e, _) => .error (.ofDictionary "registering catalog" e)
  | (.ok (), builder) => .ok builder.build

structure Summary where
  accepted : Nat
  rejected : Nat
  errors : Nat
  deriving DecidableEq, Repr

/-- What is noted of the datagrams so far: how many had each outcome, an event for each
of them, and the signals that one was accepted for. -/
structure Tally where
  summary : Summary
  events : Array Event
  touched : IdentitySet

namespace Tally

def empty : Tally := ⟨⟨0, 0, 0⟩, #[], .empty⟩

/-- The tally with one more event. -/
def note (t : Tally) (e : Event) : Tally :=
  let events := t.events.push e
  match e.result with
  | .ok .accepted =>
    ⟨{ t.summary with accepted := t.summary.accepted + 1 }, events, t.touched.extend e.signal⟩
  | .ok .rejected =>
    ⟨{ t.summary with rejected := t.summary.rejected + 1 }, events, t.touched⟩
  | .error _ => ⟨{ t.summary with errors := t.summary.errors + 1 }, events, t.touched⟩

end Tally

/-- A replay on its way: the clock, the dictionary, and what is noted. -/
structure Playback where
  now : UInt32
  dictionary : Dictionary
  tally : Tally

/-- A signal as it stands at the end of a log. -/
structure SignalState where
  name : String
  identity : Identity
  header : Header
  value : String
  valid : Bool
  deriving DecidableEq, Repr

/-- The name of a signal, or its identity if it has none. -/
def signalName (c : Catalog) (identity : Identity) : String :=
  (c.nameFor? identity).getD identity.text

def signalState (c : Catalog) (d : Dictionary) (now : UInt32) (identity : Identity) :
    Option SignalState :=
  match d.record identity with
  | .error _ => none
  | .ok r => some ⟨signalName c identity, identity, r.header, r.payload.text, r.isValid now⟩

structure Replayed where
  summary : Summary
  events : List Event
  /-- The signals ever accepted, in ascending order of identity. -/
  signals : List SignalState

namespace Playback

/-- The clock starts at the time of the first entry. -/
def start (d : Dictionary) (entries : List LogEntry) : Playback :=
  ⟨(entries.head?.map (·.time)).getD 0, d, .empty⟩

/-- Take in the datagrams of an entry until its bytes are used up or one fails. -/
def follow (p : Playback) (entry : LogEntry) (reader : Reader) : Playback :=
  if reader.available = 0 then p
  else
    let signal := (Header.peek reader).toOption.map (·.identity)
    match _h : p.dictionary.ingest p.now reader with
    | (.error e, next, _) =>
      ⟨p.now, next, p.tally.note ⟨entry.line, entry.time, signal, .error e⟩⟩
    | (.ok outcome, next, after) =>
      follow ⟨p.now, next, p.tally.note ⟨entry.line, entry.time, signal, .ok outcome⟩⟩ entry after
termination_by reader.available
decreasing_by exact Dictionary.available_lt_of_ingest ‹_›

/-- The clock is set to the time of an entry before it is taken in. -/
def enter (p : Playback) (entry : LogEntry) : Playback :=
  follow { p with now := entry.time } entry (Reader.ofBytes entry.bytes)

def play (p : Playback) (entries : List LogEntry) : Playback := entries.foldl enter p

/-- What is reported in the end, the signals as they stand then. -/
def report (p : Playback) (c : Catalog) : Replayed :=
  ⟨p.tally.summary, p.tally.events.toList,
    p.tally.touched.members.filterMap (signalState c p.dictionary p.now)⟩

end Playback

def replayEntries (c : Catalog) (entries : List LogEntry) : Except Failure Replayed :=
  match receiver c with
  | .error failure => .error failure
  | .ok d => .ok (((Playback.start d entries).play entries).report c)

def eventDocument (c : Catalog) (e : Event) : Json.Value :=
  .object ([("line", natural e.line), ("t_ms", natural e.time.toNat),
      ("signal", nullable (e.signal.map (signalName c))), ("outcome", .text e.outcomeText)]
    ++ (e.error?.map fun error => ("error", Json.Value.text error.message)).toList)

def stateDocument (s : SignalState) : Json.Value :=
  .object [("name", .text s.name), ("category", natural s.identity.category.toNat),
    ("subcategory", natural s.identity.subcategory.toNat), ("value", .text s.value),
    ("valid", .bool s.valid), ("device", natural s.header.device.toNat),
    ("priority", natural s.header.priority.byte.toNat),
    ("timestamp", natural s.header.timestamp.toNat)]

def summaryDocument (s : Summary) : Json.Value :=
  .object [("accepted", natural s.accepted), ("rejected", natural s.rejected),
    ("errors", natural s.errors)]

def stateTable (signals : List SignalState) : Text.Table :=
  let row (s : SignalState) : List String :=
    [s.name, s.identity.text, s.value, if s.valid then "yes" else "no",
      toString s.header.device.toNat, s.header.priority.text,
      toString s.header.timestamp.toNat]
  ⟨["SIGNAL", "ID", "VALUE", "VALID", "DEVICE", "PRIORITY", "TIMESTAMP"], signals.map row⟩

/-- The signal of an event as people see it. -/
def eventSignal (c : Catalog) (e : Event) : String := (e.signal.map (signalName c)).getD "-"

/-- The message of an error after a colon, or nothing. -/
def errorTail (e : Event) : String := (e.error?.map fun error => ": " ++ error.message).getD ""

def eventTable (c : Catalog) (events : List Event) : Text.Table :=
  ⟨["LINE", "T (ms)", "SIGNAL", "OUTCOME"],
    events.map fun e =>
      [toString e.line, toString e.time.toNat, eventSignal c e, e.outcomeText ++ errorTail e]⟩

def eventLine (c : Catalog) (e : Event) : String :=
  s!"line {e.line} t={e.time.toNat} {eventSignal c e} {e.outcomeText}{errorTail e}"

def printReplayed (c : Catalog) (x : Replayed) : Format → String
  | .json =>
    document "replay" [("summary", summaryDocument x.summary),
      ("events", .array (x.events.map (eventDocument c))),
      ("signals", .array (x.signals.map stateDocument))]
  | .table => lines [(eventTable c x.events).render, (stateTable x.signals).render]
  | .pretty => lines (x.events.map (eventLine c) ++ [(stateTable x.signals).render])
  | .raw => lines (x.signals.map fun s => s.name ++ " " ++ s.value)

/-- When errors count, any of them is a failure after the output. -/
def strictFailure (s : Summary) : Option Failure :=
  if 0 < s.errors then some (.data s!"{s.errors} datagram(s) failed to ingest") else none

def replay (c : Catalog) (path : String) (source : Storage.Source) (strict : Bool)
    (format : Format) : Answer :=
  match loadLog path source with
  | .error failure => .failed failure
  | .ok entries =>
    match replayEntries c entries with
    | .error failure => .failed failure
    | .ok x =>
      ⟨.text (printReplayed c x format),
        if strict then strictFailure x.summary else none⟩

end Command
end InstrumentBus
