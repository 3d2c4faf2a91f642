import InstrumentBus.Command.Output
import InstrumentBus.Command.Operand

/-!
# Encoding one datagram

A value given as text becomes the datagram of a node that transmits nothing else.
-/

namespace InstrumentBus
namespace Command

open Numeric Signal

structure EncodeRequest where
  name : String
  value : String
  device : UInt8
  priority : UInt8
  timestamp : UInt32
  deriving DecidableEq, Repr

/-- The value a text gives to a signal of some kind. -/
def readValue (kind : Kind) (text : List Char) : Except Failure ValueChange :=
  match kind with
  | .scaled _ => (readFinite text).map .scaled
  | .integer =>
    match readWord (Text.trim text) with
    | .ok n => .ok (.integer n)
    | .error message => .error (.usage message)
  | .buffer _ => (readHex text).map .bytes

/-- The datagram of a definition with the value of a request. -/
def encodeDefinition (d : Catalog.Definition) (request : EncodeRequest) :
    Except Failure (List UInt8) :=
  let builder := Dictionary.Builder.new ⟨request.device, ⟨request.priority⟩, none⟩
  match builder.register d.descriptor d.kind .transmit with
  | .error e => .error (.ofDictionary "registering signal" e)
  | .ok builder =>
    match readValue d.kind request.value.toList with
    | .error failure => .error failure
    | .ok value =>
      match builder.build.change request.timestamp d.identity (.value value) with
      | .error e => .error (.ofDictionary "setting value" e)
      | .ok dictionary =>
        match dictionary.emitBytes d.identity with
        | .error e => .error (.ofDictionary "encoding datagram" e)
        | .ok bytes => .ok bytes

/-- The definition a request names, and its datagram. -/
def encodeRequest (c : Catalog) (request : EncodeRequest) :
    Except Failure (Catalog.Definition × List UInt8) :=
  match c.get? request.name with
  | none => .error (.usage ("unknown signal: " ++ request.name))
  | some d => (encodeDefinition d request).map fun bytes => (d, bytes)

def printEncoded (d : Catalog.Definition) (request : EncodeRequest) (datagram : List UInt8) :
    Format → Output
  | .json =>
    .text (document "encode" [("name", .text d.name),
      ("category", natural d.identity.category.toNat),
      ("subcategory", natural d.identity.subcategory.toNat),
      ("device", natural request.device.toNat), ("priority", natural request.priority.toNat),
      ("timestamp", natural request.timestamp.toNat), ("size", natural datagram.length),
      ("datagram", .text (Text.Hex.encodeText datagram))])
  | .table =>
    let t : Text.Table :=
      ⟨["SIGNAL", "ID", "DEVICE", "PRIORITY", "TIMESTAMP", "DATAGRAM"],
        [[d.name, d.identity.text, toString request.device.toNat,
          (Priority.mk request.priority).text, toString request.timestamp.toNat,
          Text.Hex.encodeText datagram]]⟩
    .text (line t.render)
  | .pretty => .text (line (Text.Hex.encodeText datagram))
  | .raw => .bytes datagram

def encode (c : Catalog) (request : EncodeRequest) (format : Format) : Answer :=
  match encodeRequest c request with
  | .error failure => .failed failure
  | .ok (d, datagram) => ⟨printEncoded d request datagram format, none⟩

end Command
end InstrumentBus
