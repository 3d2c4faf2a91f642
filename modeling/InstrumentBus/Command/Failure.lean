import InstrumentBus.SignalList.Load
import InstrumentBus.Dictionary.Basic

/-!
# Failures of a command

A failure is an exit code and a message. The code tells whether the data, the use
of the command or the program itself is to blame.
-/

namespace InstrumentBus
namespace Command

structure Failure where
  code : Nat
  message : String
  deriving DecidableEq, Repr

namespace Failure

def failed : Nat := 1
def forbidden : Nat := 50
def invalidData : Nat := 60
def badUsage : Nat := 64
def internal : Nat := 125

def data (message : String) : Failure := ⟨invalidData, message⟩

def usage (message : String) : Failure := ⟨badUsage, message⟩

def within (context : String) (code : Nat) (message : String) : Failure :=
  ⟨code, context ++ ": " ++ message⟩

/-- A file that is not there is a failure; any other way to miss it is unforeseen. -/
def ofPath (context : String) (fault : Storage.PathFault) : Failure :=
  let code := match fault with
    | .missing => failed
    | .denied => forbidden
    | _ => internal
  within context code fault.message

/-- A list that cannot be read is a failure; one that is wrong is bad data. -/
def ofList (context : String) (e : SignalList.Error) : Failure :=
  let code := match e with
    | .loadFailed _ => failed
    | _ => invalidData
  within context code e.message

def signalCode : Signal.Error → Nat
  | .wire (.badResolution _) | .wrongMode _ _ => internal
  | .wire _ | .sizeMismatch _ _ | .tooLarge _ _ | .identityMismatch _ _ => invalidData
  | .shapeMismatch _ _ | .indexOutOfRange _ _ => badUsage

def ofSignal (context : String) (e : Signal.Error) : Failure :=
  within context (signalCode e) e.message

def dictionaryCode : Dictionary.Error → Nat
  | .signal e => signalCode e
  | .underrun _ _ | .unknownIdentity _ | .integrityMismatch _ _ => invalidData
  | .overflow _ _ | .alreadyRegistered _ | .wrongMode _ _ => internal

def ofDictionary (context : String) (e : Dictionary.Error) : Failure :=
  within context (dictionaryCode e) e.message

end Failure
end Command
end InstrumentBus
