import InstrumentBus.Command.Run

/-!
# The command line

Files are read and output is written here and nowhere else.
-/

namespace InstrumentBus

open Command

/-- The number the system gives a file that stands where a directory is needed. -/
def notDirectoryCode : UInt32 := 20

/-- What a path leads to now. -/
def probe (path : String) : IO Storage.Source := do
  match ← (IO.FS.readBinFile path).toBaseIO with
  | .ok content => return .file content
  | .error (.inappropriateType _ code _) =>
    return if code = notDirectoryCode then .nowhere .notDirectory else .directory
  | .error (.permissionDenied ..) => return .nowhere .denied
  | .error (.invalidArgument ..) => return .nowhere .tooLong
  | .error _ => return .nowhere .missing

def put (output : Output) : IO Unit := do
  let out ← IO.getStdout
  match output with
  | .text s => out.putStr s
  | .bytes content => out.write ⟨content.toArray⟩
  out.flush

def usageText (usage : Usage) : String :=
  match usage with
  | .version => programName ++ " " ++ programVersion
  | _ => "usage: " ++ programName ++ " [OPTIONS] catalog|encode|decode|replay|version"

/-- Help and the version go to the output, faults to the error output. -/
def putUsage (usage : Usage) : IO Unit :=
  if usage.code = 0 then IO.println (usageText usage) else IO.eprintln (usageText usage)

def runInvocation (invocation : Invocation) : IO UInt32 := do
  let sources ← invocation.paths.mapM fun path => return (path, ← probe path)
  let files : Files := fun path => (sources.lookup path).getD (.nowhere .missing)
  let standard := if ← (← IO.getStdout).isTty then Format.table else Format.json
  let answer := invocation.run standard files
  put answer.output
  if let some complaint := answer.complaint? then IO.eprintln complaint
  return UInt32.ofNat answer.code

def run (arguments : List String) : IO UInt32 := do
  match readArguments (← IO.getEnv "SIGBUS_SIGNALS") arguments with
  | .error usage =>
    putUsage usage
    return UInt32.ofNat usage.code
  | .ok invocation => runInvocation invocation

end InstrumentBus

def main (arguments : List String) : IO UInt32 := InstrumentBus.run arguments
