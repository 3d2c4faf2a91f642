import InstrumentBus.Json.Value
import InstrumentBus.Catalog.Basic

/-!
# Drafts of signal lists

What a document says once its values have the right types, before it is known
whether the signals make sense. Integers must be written as integers; units,
resolution and length may be null; a list or a signal may also be written as an
array of its fields in order.
-/

namespace InstrumentBus
namespace SignalList

open Json Numeric Signal

inductive ResolutionDraft where
  | value (x : Binary64)
  | named (name : String)
  deriving DecidableEq

structure SignalDraft where
  category : UInt8
  subcategory : UInt8
  name : String
  description : String
  timeout : UInt32
  shape : Shape
  units : Option String
  resolution : Option ResolutionDraft
  length : Option Nat
  deriving DecidableEq

structure ListDraft where
  version : Int
  signals : List SignalDraft
  deriving DecidableEq

/-- An integer below a bound. -/
def readNatural (bound : Nat) : Value → Option Nat
  | .number (.integer n) => if 0 ≤ n ∧ n < bound then some n.toNat else none
  | _ => none

/-- An integer of 64 bits with a sign. -/
def readSigned : Value → Option Int
  | .number (.integer n) => if -0x8000000000000000 ≤ n ∧ n < 0x8000000000000000 then some n else none
  | _ => none

def readText : Value → Option String
  | .text s => some s
  | _ => none

def shapeNamed : String → Option Shape
  | "fixed" => some .scaled
  | "integer" => some .integer
  | "buffer" => some .buffer
  | _ => none

/-- A type by its name, or by an object with that one key and nothing in it. -/
def readShape : Value → Option Shape
  | .text s => shapeNamed s
  | .object [(s, .null)] => shapeNamed s
  | _ => none

def readResolution : Value → Option ResolutionDraft
  | .number n => some (.value n.toBinary64)
  | .text s => some (.named s)
  | _ => none

/-- A value that may be null. -/
def readNullable {α : Type} (read : Value → Option α) : Value → Option (Option α)
  | .null => some none
  | v => (read v).map some

/-- A member that must be there. -/
def required {α : Type} (members : List (String × Value)) (key : String)
    (read : Value → Option α) : Option α :=
  (member? key members).bind read

/-- A member that may be missing. -/
def optional {α : Type} (members : List (String × Value)) (key : String)
    (read : Value → Option α) (absent : α) : Option α :=
  match member? key members with
  | none => some absent
  | some v => read v

/-- The fields of an object, or of an array that gives at least the first of them in order. -/
def fieldsOf (names : List String) (least : Nat) : Value → Option (List (String × Value))
  | .object members => some members
  | .array items =>
    if least ≤ items.length ∧ items.length ≤ names.length then some (names.zip items) else none
  | _ => none

def signalFields : List String :=
  ["cat_id", "sub_id", "name", "description", "timeout", "type", "units", "resolution", "length"]

def readSignal (v : Value) : Option SignalDraft := do
  let members ← fieldsOf signalFields signalFields.length v
  let category ← required members "cat_id" (readNatural 0x100)
  let subcategory ← required members "sub_id" (readNatural 0x100)
  let name ← required members "name" readText
  let description ← optional members "description" readText ""
  let timeout ← required members "timeout" (readNatural 0x100000000)
  let shape ← optional members "type" readShape .scaled
  let units ← optional members "units" (readNullable readText) none
  let resolution ← optional members "resolution" (readNullable readResolution) none
  let length ← optional members "length" (readNullable (readNatural 0x10000000000000000)) none
  return ⟨UInt8.ofNat category, UInt8.ofNat subcategory, name, description,
    UInt32.ofNat timeout, shape, units, resolution, length⟩

def readSignals : Value → Option (List SignalDraft)
  | .array items => items.mapM readSignal
  | _ => none

def listFields : List String := ["version", "signals"]

def readList (v : Value) : Option ListDraft := do
  let members ← fieldsOf listFields 1 v
  let version ← required members "version" readSigned
  let signals ← optional members "signals" readSignals []
  return ⟨version, signals⟩

/-- The name that stands for the resolution of angles. -/
def angleResolutionName : String := "semi2deg"

open Catalog in
/-- The resolution of a scaled signal. -/
def SignalDraft.scale (s : SignalDraft) : Except DefinitionFault Binary64 :=
  match s.resolution with
  | some (.value x) => .ok x
  | some (.named name) =>
    if name = angleResolutionName then .ok Wire.degreesPerTurnStep
    else .error (.unknownResolution name)
  | none => .error .missingResolution

open Catalog in
/-- The kind a draft asks for. A field the type needs must be there before a field
it has no use for is refused, a resolution before a length. -/
def SignalDraft.kind (s : SignalDraft) : Except DefinitionFault Kind :=
  match s.shape with
  | .scaled =>
    match s.scale with
    | .error fault => .error fault
    | .ok resolution =>
      if s.length.isSome then .error (.lengthNotAllowed .scaled) else .ok (.scaled resolution)
  | .integer =>
    if s.resolution.isSome then .error (.resolutionNotAllowed .integer)
    else if s.length.isSome then .error (.lengthNotAllowed .integer)
    else .ok .integer
  | .buffer =>
    match s.length with
    | none => .error .missingLength
    | some length =>
      if s.resolution.isSome then .error (.resolutionNotAllowed .buffer)
      else .ok (.buffer length)

open Catalog in
/-- A definition of a kind, with what a draft says besides. -/
def SignalDraft.define (s : SignalDraft) (kind : Kind) : Definition :=
  ⟨s.name, s.description, ⟨s.category, s.subcategory⟩, s.timeout, kind, s.units⟩

open Catalog in
/-- The definition a draft stands for, if there is nothing wrong with it. -/
def SignalDraft.definition (s : SignalDraft) : Except Catalog.Error Definition :=
  match s.kind with
  | .error fault => .error (.invalidDefinition s.name fault)
  | .ok kind =>
    let d := s.define kind
    match d.fault? with
    | some fault => .error (.invalidDefinition d.name fault)
    | none => .ok d

end SignalList
end InstrumentBus
