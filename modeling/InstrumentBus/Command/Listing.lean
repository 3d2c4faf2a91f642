import InstrumentBus.Command.Output
import InstrumentBus.Catalog.Basic

/-!
# Listing the signals of a catalog
-/

namespace InstrumentBus
namespace Command

open Signal

def kindMembers : Kind → List (String × Json.Value)
  | .scaled resolution => [("resolution", .number (.double resolution))]
  | .integer => []
  | .buffer length => [("length", natural length)]

def definitionDocument (d : Catalog.Definition) : Json.Value :=
  .object ([("name", .text d.name), ("category", natural d.identity.category.toNat),
      ("subcategory", natural d.identity.subcategory.toNat), ("kind", .text d.kind.shape.text)]
    ++ kindMembers d.kind
    ++ [("units", nullable d.units), ("timeout_ms", natural d.timeout.toNat),
      ("description", .text d.description)])

def definitionRow (d : Catalog.Definition) : List String :=
  [d.name, d.identity.text, d.kind.label, d.units.getD "", s!"{d.timeout.toNat} ms", d.description]

def definitionLine (d : Catalog.Definition) : String :=
  padAfter 20 d.name ++ " " ++ padBefore 7 d.identity.text ++ "  " ++ padAfter 28 d.kind.label
    ++ " " ++ padAfter 8 (d.units.getD "-") ++ s!" {d.timeout.toNat} ms"

def list (c : Catalog) : Format → Answer
  | .json =>
    .printed (document "catalog" [("version", natural c.version.toNat), ("count", natural c.size),
      ("signals", .array (c.definitions.map definitionDocument))])
  | .table =>
    let t : Text.Table :=
      ⟨["NAME", "ID", "KIND", "UNITS", "TIMEOUT", "DESCRIPTION"], c.definitions.map definitionRow⟩
    .printed (lines [t.render, s!"signal list version {c.version.toNat}"])
  | .pretty => .printed (lines (c.definitions.map definitionLine))
  | .raw => .printed (lines (c.definitions.map (·.name)))

end Command
end InstrumentBus
