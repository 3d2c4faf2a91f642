import InstrumentBus.Signal.Payload
import InstrumentBus.Text.Blank

/-!
# Signal definitions

A definition gives a signal its name, identity, timeout and kind. It is checked
for a visible name, a usable resolution and a length that a signal may have.
-/

namespace InstrumentBus
namespace Catalog

open Numeric Signal

structure Definition where
  name : String
  description : String
  identity : Identity
  timeout : UInt32
  kind : Kind
  units : Option String
  deriving DecidableEq

/-- What is wrong with a definition. -/
inductive DefinitionFault where
  | emptyName
  | badResolution (resolution : Binary64)
  | tooLong (length : Nat)
  | unknownResolution (name : String)
  | missingResolution
  | missingLength
  | resolutionNotAllowed (shape : Shape)
  | lengthNotAllowed (shape : Shape)
  deriving DecidableEq

def DefinitionFault.message : DefinitionFault → String
  | .emptyName => "name must not be empty"
  | .badResolution resolution =>
    "resolution must be > 0 (got " ++ Decimal.plain.render resolution ++ ")"
  | .tooLong length => s!"buffer length must be <= {maxBufferLength} (got {length})"
  | .unknownResolution name => s!"unknown resolution name: {name}"
  | .missingResolution => "fixed signals require a resolution"
  | .missingLength => "buffer signals require a length"
  | .resolutionNotAllowed shape => s!"resolution is not allowed on {shape.text} signals"
  | .lengthNotAllowed shape => s!"length is not allowed on {shape.text} signals"

namespace Definition

def descriptor (d : Definition) : Descriptor := ⟨d.identity, d.timeout⟩

/-- The first thing wrong with a definition, if any. -/
def fault? (d : Definition) : Option DefinitionFault :=
  if d.name.toList.all Text.isBlank then some .emptyName
  else match d.kind with
    | .scaled resolution =>
      if Wire.isResolution resolution then none else some (.badResolution resolution)
    | .integer => none
    | .buffer length => if maxBufferLength < length then some (.tooLong length) else none

/-- A definition is sound if its name can be seen and there are payloads of its kind. -/
theorem fault?_eq_none_iff {d : Definition} :
    d.fault? = none ↔ d.name.toList.all Text.isBlank = false ∧
      ∃ zero, Payload.zero d.kind = .ok zero := by
  unfold fault?
  cases hname : d.name.toList.all Text.isBlank with
  | true => simp
  | false =>
    cases d.kind with
    | scaled resolution =>
      by_cases h : Wire.isResolution resolution = true
      · simp [Payload.zero, Wire.FixedPoint.new, h]
      · simp [Payload.zero, Wire.FixedPoint.new, h]
    | integer => simp [Payload.zero]
    | buffer length =>
      by_cases h : maxBufferLength < length
      · simp [Payload.zero, h]
      · simp [Payload.zero, h]

end Definition
end Catalog
end InstrumentBus
