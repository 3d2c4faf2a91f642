import InstrumentBus.Command.Operand
import InstrumentBus.Command.Output

/-!
# Parameters of the commands

The options, switches and operands that commands take, and which texts they allow.
-/

namespace InstrumentBus
namespace Command

/-- Why arguments name no command to run: they are faulty, or they ask for help or
for the version. -/
inductive Usage where
  | missingArgument
  | unknownArgument
  /-- A switch that was given a value. -/
  | tooManyValues
  | invalidValue
  /-- A byte or word that cannot be read. -/
  | unreadableValue
  | repeatedArgument
  | invalidCommand
  | missingCommand
  /-- No arguments at all. -/
  | nothingGiven
  | help
  | version
  deriving DecidableEq, Repr

/-- Asking for help or the version is no fault. -/
def Usage.code : Usage → Nat
  | .help | .version => 0
  | _ => 2

inductive Verb where
  | catalog
  | encode
  | decode
  | replay
  | version
  deriving DecidableEq, Repr

def Verb.ofText? : String → Option Verb
  | "catalog" => some .catalog
  | "encode" => some .encode
  | "decode" => some .decode
  | "replay" => some .replay
  | "version" => some .version
  | _ => none

/-- Whatever can be given: options with a text, then switches, then operands. -/
inductive Parameter where
  | format
  | signals
  | logFormat
  | logLevel
  | device
  | priority
  | timestamp
  | strict
  | extended
  | help
  | showVersion
  | name
  | value
  | hex
  | file
  deriving DecidableEq, Repr

def Format.ofText? : String → Option Format
  | "json" => some .json
  | "table" => some .table
  | "pretty" => some .pretty
  | "raw" => some .raw
  | _ => none

namespace Parameter

/-- The word of an option or switch after two hyphens; an operand has none. -/
def word? : Parameter → Option String
  | .format => some "format"
  | .signals => some "signals"
  | .logFormat => some "log-format"
  | .logLevel => some "log-level"
  | .device => some "device"
  | .priority => some "priority"
  | .timestamp => some "timestamp"
  | .strict => some "strict"
  | .extended => some "extended"
  | .help => some "help"
  | .showVersion => some "version"
  | .name | .value | .hex | .file => none

/-- The letter of a switch after one hyphen. -/
def letter? : Parameter → Option Char
  | .help => some 'h'
  | .showVersion => some 'V'
  | _ => none

/-- Whether an operand may look like an option. -/
def allowsHyphen : Parameter → Bool
  | .value => true
  | _ => false

def oneOf (choices : List String) (text : String) : Option Usage :=
  if choices.contains text then none else some .invalidValue

def notEmpty (text : String) : Option Usage :=
  if text.isEmpty then some .invalidValue else none

def readable {α : Type} (result : Except String α) : Option Usage :=
  match result with
  | .ok _ => none
  | .error _ => some .unreadableValue

/-- What is wrong with a text given for a parameter. -/
def fault? (p : Parameter) (text : String) : Option Usage :=
  match p with
  | .format => if (Format.ofText? text).isSome then none else some .invalidValue
  | .logFormat => oneOf ["text", "json"] text
  | .logLevel => oneOf ["error", "warn", "info", "debug", "trace"] text
  | .signals | .file => notEmpty text
  | .device | .priority => readable (readByte text.toList)
  | .timestamp => readable (readWord text.toList)
  | .strict | .extended | .help | .showVersion | .name | .value | .hex => none

end Parameter

/-- What may be given at one place of a command line: before the verb or after it. -/
structure Level where
  options : List Parameter
  switches : List Parameter
  operands : List Parameter
  /-- Whether a verb is expected here. -/
  takesVerb : Bool

namespace Level

/-- The options that every place takes. -/
def common : List Parameter := [.format, .signals, .logFormat, .logLevel]

def top : Level := ⟨common, [.help, .showVersion], [], true⟩

def after : Verb → Level
  | .catalog => ⟨common, [.help], [], false⟩
  | .encode => ⟨[.device, .priority, .timestamp] ++ common, [.help], [.name, .value], false⟩
  | .decode => ⟨common, [.help], [.hex], false⟩
  | .replay => ⟨common, [.strict, .help], [.file], false⟩
  | .version => ⟨common, [.extended, .help], [], false⟩

def option? (l : Level) (word : String) : Option Parameter :=
  l.options.find? (·.word? == some word)

def switch? (l : Level) (word : String) : Option Parameter :=
  l.switches.find? (·.word? == some word)

def switchOfLetter? (l : Level) (letter : Char) : Option Parameter :=
  l.switches.find? (·.letter? == some letter)

end Level
end Command
end InstrumentBus
