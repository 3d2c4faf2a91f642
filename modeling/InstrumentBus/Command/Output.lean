import InstrumentBus.Command.Failure
import InstrumentBus.Json.Printer
import InstrumentBus.Text.Table

/-!
# What a command prints

Every command prints in one of four formats. JSON documents name their schema.
-/

namespace InstrumentBus
namespace Command

inductive Format where
  | json
  | table
  | pretty
  | raw
  deriving DecidableEq, Repr

inductive Output where
  | text (s : String)
  | bytes (content : List UInt8)
  deriving DecidableEq

/-- What a command printed, and why it failed if it did. -/
structure Answer where
  output : Output
  failure : Option Failure

def Answer.printed (s : String) : Answer := ⟨.text s, none⟩

def Answer.failed (f : Failure) : Answer := ⟨.text "", some f⟩

def line (s : String) : String := s ++ "\n"

def lines (ls : List String) : String := String.join (ls.map line)

def schemaId (name : String) : String :=
  "https://schemas.sigbus.dev/cli/v1/" ++ name ++ ".schema.json"

/-- A document with the id of its schema in front. -/
def document (name : String) (members : List (String × Json.Value)) : String :=
  line (Json.Value.object (("schema_id", .text (schemaId name)) :: members)).render

def natural (n : Nat) : Json.Value := .number (.integer n)

def nullable : Option String → Json.Value
  | none => .null
  | some s => .text s

/-- A text filled up with spaces behind or before it, counted in characters. -/
def padAfter (width : Nat) (s : String) : String :=
  s ++ Text.Table.fill ' ' (width - s.length)

def padBefore (width : Nat) (s : String) : String :=
  Text.Table.fill ' ' (width - s.length) ++ s

end Command
end InstrumentBus
