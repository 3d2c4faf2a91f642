import InstrumentBus.Dictionary.Basic

/-!
# Nodes and their operations

A node is a dictionary with a clock that only moves when told to. Everything that
can be asked of a node is an operation with a reply; a bus is a list of nodes.
-/

namespace InstrumentBus
namespace Dictionary

open Numeric Wire Signal

structure Node where
  dictionary : Dictionary
  now : UInt32

inductive Operation where
  | set (now : UInt32)
  | advance (milliseconds : UInt32)
  | identities
  | describe
  | settings
  | ingest (bytes : List UInt8)
  | drain (bytes : List UInt8)
  /-- Emit into a buffer of which the first `skip` bytes are taken. -/
  | emit (identity : Identity) (capacity skip : Nat)
  | emitBytes (identity : Identity)
  | size (identity : Identity)
  | change (identity : Identity) (c : Change)
  | scaled (identity : Identity)
  | scaledIfValid (identity : Identity)
  | integer (identity : Identity)
  | buffer (identity : Identity)
  | isValid (identity : Identity)
  | contains (identity : Identity)
  | read (identity : Identity)

inductive Reply where
  | clock (now : UInt32)
  | identities (identities : List Identity)
  | text (s : String)
  | settings (device : UInt8) (priority : Priority) (integrity : Bool)
  | ingested (result : Except Error Outcome) (position : Nat)
  | drained (arrivals : List Arrival)
  | emitted (result : Except Error Nat) (w : Writer)
  | bytes (result : Except Error (List UInt8))
  | size (result : Except Error Nat)
  | changed (result : Except Error Unit)
  | scaled (result : Except Error Binary64)
  | scaledIfValid (result : Except Error (Option Binary64))
  | integer (result : Except Error UInt32)
  | flag (result : Except Error Bool)
  | read (result : Except Error (Mode × Kind))

namespace Node

def text (n : Node) : String :=
  s!"SignalDictionary \x7b signals: {n.dictionary.size}, config: {n.dictionary.config.text}, "
    ++ s!"now_ms: {n.now.toNat} \x7d"

/-- The bytes a buffer for emission starts with, before and behind the part taken. -/
def emissionBuffer (capacity skip : Nat) : Writer :=
  ((Writer.ofBuffer (List.replicate capacity 0xee)).put (List.replicate skip 0xdd)).2

/-- The reply to an operation, and the node after it. -/
def perform (n : Node) : Operation → Reply × Node
  | .set now => (.clock now, { n with now := now })
  | .advance milliseconds =>
    (.clock (n.now + milliseconds), { n with now := n.now + milliseconds })
  | .identities => (.identities n.dictionary.identities, n)
  | .describe => (.text n.text, n)
  | .settings =>
    let c := n.dictionary.config
    (.settings c.device c.priority c.integrity.isSome, n)
  | .ingest bytes =>
    let (result, d, reader) := n.dictionary.ingest n.now (Reader.ofBytes bytes)
    (.ingested result reader.position, { n with dictionary := d })
  | .drain bytes =>
    let (arrivals, d) := n.dictionary.drain n.now (Reader.ofBytes bytes)
    (.drained arrivals, { n with dictionary := d })
  | .emit identity capacity skip =>
    let (result, w) := n.dictionary.emit identity (emissionBuffer capacity skip)
    (.emitted result w, n)
  | .emitBytes identity => (.bytes (n.dictionary.emitBytes identity), n)
  | .size identity => (.size (n.dictionary.datagramSize identity), n)
  | .change identity c =>
    match n.dictionary.change n.now identity c with
    | .error e => (.changed (.error e), n)
    | .ok d => (.changed (.ok ()), { n with dictionary := d })
  | .scaled identity => (.scaled (n.dictionary.scaled identity), n)
  | .scaledIfValid identity => (.scaledIfValid (n.dictionary.scaledIfValid n.now identity), n)
  | .integer identity => (.integer (n.dictionary.integer identity), n)
  | .buffer identity => (.bytes (n.dictionary.buffer identity), n)
  | .isValid identity => (.flag (n.dictionary.isValid n.now identity), n)
  | .contains identity => (.flag (.ok (n.dictionary.contains identity)), n)
  | .read identity =>
    (.read ((n.dictionary.record identity).map fun r => (r.mode, r.payload.kind)), n)

/-- The node after a run of operations. -/
def run (n : Node) (ops : List Operation) : Node :=
  ops.foldl (fun n op => (n.perform op).2) n

theorem run_append (n : Node) (a b : List Operation) : n.run (a ++ b) = (n.run a).run b := by
  simp [run, List.foldl_append]

end Node

/-- What a datagram sent from one node to another comes to: the bytes and the
outcome at the receiver. -/
def deliver (sender receiver : Node) (identity : Identity) :
    Except Error (List UInt8 × Except Error Outcome) × Node :=
  match sender.dictionary.emitBytes identity with
  | .error e => (.error e, receiver)
  | .ok bytes =>
    let (outcome, d, _) := receiver.dictionary.ingest receiver.now (Reader.ofBytes bytes)
    (.ok (bytes, outcome), { receiver with dictionary := d })

end Dictionary
end InstrumentBus
