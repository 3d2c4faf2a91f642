import InstrumentBus.Command.Output
import InstrumentBus.Command.Operand
import InstrumentBus.Signal.Readout

/-!
# Decoding one datagram

A datagram is read on its own, without arbitration; bytes behind it are counted.
-/

namespace InstrumentBus
namespace Command

open Numeric Signal Wire

structure Decoded where
  definition : Catalog.Definition
  header : Header
  payload : Payload
  /-- The number of bytes behind the datagram. -/
  trailing : Nat

/-- The payload of a kind that a reader stands at. -/
def readPayload (kind : Kind) (reader : Reader) : Except Signal.Error (Payload × Reader) :=
  match Payload.zero kind with
  | .error e => .error e
  | .ok zero => zero.read reader

def decodeBytes (c : Catalog) (bytes : List UInt8) : Except Failure Decoded :=
  match Header.read (Reader.ofBytes bytes) with
  | .error e => .error (.ofSignal "decoding header" (.wire e))
  | .ok (header, reader) =>
    match c.definition? header.identity with
    | none => .error (.data ("unknown signal identity " ++ header.identity.text))
    | some d =>
      match readPayload d.kind reader with
      | .error e => .error (.ofSignal "decoding payload" e)
      | .ok (payload, reader) => .ok ⟨d, header, payload, reader.available⟩

def healthText (p : Priority) : String := if p.healthy then "healthy" else "unhealthy"

/-- The value with its units, if it has any. -/
def valueWithUnits (value : String) (units : Option String) : String :=
  String.ofList (Text.trimEnd (value ++ " " ++ units.getD "").toList)

def decodedRows (x : Decoded) : List (List String) :=
  let h := x.header
  [["signal", x.definition.name], ["identity", h.identity.text],
    ["device", toString h.device.toNat],
    ["priority", s!"{h.priority.text} ({healthText h.priority}, rank {h.priority.rank.toNat})"],
    ["timestamp", toString h.timestamp.toNat],
    ["value", valueWithUnits x.payload.text x.definition.units]]
    ++ (if 0 < x.trailing then [["trailing", s!"{x.trailing} bytes"]] else [])

def decodedMembers (x : Decoded) : List (String × Json.Value) :=
  let h := x.header
  [("name", .text x.definition.name), ("category", natural h.identity.category.toNat),
    ("subcategory", natural h.identity.subcategory.toNat), ("device", natural h.device.toNat),
    ("priority", natural h.priority.byte.toNat), ("healthy", .bool h.priority.healthy),
    ("rank", natural h.priority.rank.toNat), ("timestamp", natural h.timestamp.toNat),
    ("kind", .text x.payload.shape.text), ("value", .text x.payload.text),
    ("units", nullable x.definition.units), ("trailing_bytes", natural x.trailing)]

def printDecoded (x : Decoded) : Format → String
  | .json => document "decode" (decodedMembers x)
  | .table => line (Text.Table.render ⟨["FIELD", "VALUE"], decodedRows x⟩)
  | .pretty | .raw => line (x.definition.name ++ " " ++ x.payload.text)

def decode (c : Catalog) (hex : String) (format : Format) : Answer :=
  match readHex hex.toList with
  | .error failure => .failed failure
  | .ok bytes =>
    match decodeBytes c bytes with
    | .error failure => .failed failure
    | .ok x => .printed (printDecoded x format)

end Command
end InstrumentBus
