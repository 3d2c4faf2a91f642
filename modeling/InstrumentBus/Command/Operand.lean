import InstrumentBus.Command.Failure
import InstrumentBus.Text.Numeral
import InstrumentBus.Text.Quoted
import InstrumentBus.Decimal.Reader

/-!
# Operands

The bytes, words, numbers and byte strings given to commands as text.
-/

namespace InstrumentBus
namespace Command

open Numeric

/-- A numeral below a bound; the fault names what it was meant to be. -/
def readNumeral (what : String) (bound : Nat) (text : List Char) : Except String Nat :=
  match Text.Numeral.parseMarked bound text with
  | .ok n => .ok n
  | .error fault => .error s!"invalid {what} {Text.quote text}: {fault.message}"

def readByte (text : List Char) : Except String UInt8 :=
  (readNumeral "byte" 0x100 text).map UInt8.ofNat

def readWord (text : List Char) : Except String UInt32 :=
  (readNumeral "integer" 0x100000000 text).map UInt32.ofNat

def hexMessage (fault : Text.Hex.Fault) : String := "invalid hex: " ++ fault.message

def readHex (text : List Char) : Except Failure (List UInt8) :=
  match Text.Hex.decode text with
  | .ok bytes => .ok bytes
  | .error fault => .error (.data (hexMessage fault))

/-- A finite number, blanks around it ignored. -/
def readFinite (text : List Char) : Except Failure Binary64 :=
  match Decimal.read (Text.trim text) with
  | .error e => .error (.usage s!"invalid value {Text.quote text}: {e.message}")
  | .ok x =>
    if x.isFinite then .ok x
    else .error (.usage ("value must be finite: " ++ String.ofList text))

end Command
end InstrumentBus
