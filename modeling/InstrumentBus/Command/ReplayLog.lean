import InstrumentBus.Command.Operand
import InstrumentBus.Text.Blank

/-!
# Replay logs

A log has one entry a line: a time in milliseconds, blanks, and bytes in
hexadecimal. A number sign starts a comment, and lines with nothing else are
skipped. Lines count from one.
-/

namespace InstrumentBus
namespace Command

/-- Bytes that arrive at a local time. -/
structure LogEntry where
  line : Nat
  time : UInt32
  bytes : List UInt8
  deriving DecidableEq, Repr

inductive LogFault where
  | incomplete
  | badTime (word : List Char) (fault : Text.Numeral.Fault)
  | badBytes (fault : Text.Hex.Fault)
  deriving DecidableEq, Repr

def LogFault.message : LogFault → String
  | .incomplete => "expected \x60<t_ms> <hex>\x60"
  | .badTime word fault => s!"bad time {Text.quote word}: {fault.message}"
  | .badBytes fault => hexMessage fault

/-- What a line says besides its comment and margins. -/
def lineContent (text : List Char) : List Char := Text.trim (text.takeWhile (· ≠ '#'))

/-- The time and bytes that the content of a line gives. -/
def readLine (content : List Char) : Except LogFault (UInt32 × List UInt8) :=
  match Text.splitAtBlank content with
  | none => .error .incomplete
  | some (word, hex) =>
    match Text.Numeral.parse 10 0x100000000 word with
    | .error fault => .error (.badTime word fault)
    | .ok time =>
      match Text.Hex.decode hex with
      | .error fault => .error (.badBytes fault)
      | .ok bytes => .ok (UInt32.ofNat time, bytes)

/-- The entries of lines from number `line` on, or the first faulty line and its fault. -/
def readLines (line : Nat) : List (List Char) → Except (Nat × LogFault) (List LogEntry)
  | [] => .ok []
  | text :: rest =>
    if (lineContent text).isEmpty then readLines (line + 1) rest
    else
      match readLine (lineContent text) with
      | .error fault => .error (line, fault)
      | .ok (time, bytes) => (readLines (line + 1) rest).map (⟨line, time, bytes⟩ :: ·)

/-- The entries of a log. -/
def readLog (text : List Char) : Except Failure (List LogEntry) :=
  match readLines 1 (Text.lines text) with
  | .ok entries => .ok entries
  | .error (line, fault) => .error (.data s!"line {line}: {fault.message}")

/-- The log in a file. -/
def loadLog (path : String) (source : Storage.Source) : Except Failure (List LogEntry) :=
  let context := "reading " ++ path
  match source with
  | .nowhere fault => .error (.ofPath context fault)
  | .directory => .error (.within context Failure.internal "Is a directory (os error 21)")
  | .file content =>
    match String.fromUTF8? content with
    | none => .error (.within context Failure.internal "stream did not contain valid UTF-8")
    | some text => readLog text.toList

end Command
end InstrumentBus
