import InstrumentBus.Command.Arguments
import InstrumentBus.Command.Listing
import InstrumentBus.Command.Decode
import InstrumentBus.Command.Replay
import InstrumentBus.Command.Version

/-!
# Running a command

A command sees its arguments, one variable of the environment, and the files its
arguments name.
-/

namespace InstrumentBus
namespace Command

/-- What the paths on a command line lead to. -/
abbrev Files := String → Storage.Source

/-- The signal list at a path, or the built-in one. -/
def loadCatalog (files : Files) : Option String → Except Failure Catalog
  | none => .ok Catalog.builtin
  | some path =>
    match SignalList.ofSource path (files path) .standard with
    | .ok c => .ok c
    | .error e => .error (.ofList ("loading " ++ path) e)

/-- A command on the catalog of an invocation. -/
def withCatalog (files : Files) (signals : Option String) (run : Catalog → Answer) : Answer :=
  match loadCatalog files signals with
  | .error failure => .failed failure
  | .ok c => run c

/-- Run a command; `standard` is the format where none was asked for. Only the version
does without signals. -/
def Invocation.run (i : Invocation) (standard : Format) (files : Files) : Answer :=
  let format := i.format.getD standard
  match i.request with
  | .catalog => withCatalog files i.signals fun c => list c format
  | .encode request => withCatalog files i.signals fun c => encode c request format
  | .decode hex => withCatalog files i.signals fun c => decode c hex format
  | .replay file strict =>
    withCatalog files i.signals fun c => replay c file (files file) strict format
  | .version extended => version extended

/-- The paths whose files a command reads. -/
def Invocation.paths (i : Invocation) : List String :=
  match i.request with
  | .version _ => []
  | .replay file _ => i.signals.toList ++ [file]
  | _ => i.signals.toList

/-- The exit code of a command that ran. -/
def Answer.code (a : Answer) : Nat := (a.failure.map (·.code)).getD 0

/-- What a command says on its error output. -/
def Answer.complaint? (a : Answer) : Option String :=
  a.failure.map fun failure => "error: " ++ failure.message

end Command
end InstrumentBus
