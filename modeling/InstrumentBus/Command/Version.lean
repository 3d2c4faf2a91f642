import InstrumentBus.Command.Output
import InstrumentBus.Catalog.Builtin

/-!
# The version of the program
-/

namespace InstrumentBus
namespace Command

def programName : String := "sigbus"

def programVersion : String := "0.1.0"

/-- What is known about the program, one line each. -/
def provenance : List (String × String) :=
  [("name", programName), ("version", programVersion),
    ("builtin_signals", s!"version {Catalog.builtinVersion.toNat}")]

def version (extended : Bool) : Answer :=
  if extended then .printed (lines (provenance.map fun (key, value) => key ++ ": " ++ value))
  else .printed (line (programName ++ " " ++ programVersion))

end Command
end InstrumentBus
