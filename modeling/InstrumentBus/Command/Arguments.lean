import InstrumentBus.Command.Parameter
import InstrumentBus.Command.Encode

/-!
# Reading the arguments

Arguments are read from left to right at one place of the command line, which ends
at a verb. A text given for a parameter is checked only when the next parameter
begins or the place ends. What follows the verb is judged before what stands in
front of it.
-/

namespace InstrumentBus
namespace Command

/-- How far the arguments at one place have been read. -/
structure Progress where
  /-- The parameters with checked texts, switches with an empty one. -/
  given : List (Parameter × String)
  /-- A parameter to be checked; an option may still wait for its text. -/
  pending : Option (Parameter × Option String)
  /-- The operands still to come. -/
  operands : List Parameter
  /-- Whether every further argument is an operand. -/
  literal : Bool

namespace Progress

def start (l : Level) : Progress := ⟨[], none, l.operands, false⟩

def isGiven (s : Progress) (p : Parameter) : Bool := s.given.any (·.1 == p)

/-- Whether an option waits for its text. -/
def waits (s : Progress) : Bool :=
  match s.pending with
  | some (_, none) => true
  | _ => false

/-- Whether the next operand may look like an option. -/
def allowsHyphen (s : Progress) : Bool :=
  (s.operands.head?.map Parameter.allowsHyphen).getD false

/-- Take a parameter with its text; none may be given twice. -/
def give (s : Progress) (p : Parameter) (text : String) : Except Usage Progress :=
  if s.isGiven p then .error .repeatedArgument
  else
    match p.fault? text with
    | some fault => .error fault
    | none => .ok { s with given := s.given ++ [(p, text)] }

/-- Check the pending parameter. -/
def settle (s : Progress) : Except Usage Progress :=
  match s.pending with
  | none => .ok s
  | some (_, none) => .error .invalidValue
  | some (p, some text) => { s with pending := none }.give p text

def switch (s : Progress) (p : Parameter) : Except Usage Progress :=
  match s.settle with
  | .error fault => .error fault
  | .ok s =>
    match p with
    | .help => .error .help
    | .showVersion => .error .version
    | p => s.give p ""

/-- Begin an option, with its text if that was attached. -/
def option (s : Progress) (p : Parameter) (attached : Option String) : Except Usage Progress :=
  match s.settle with
  | .error fault => .error fault
  | .ok s =>
    match attached with
    | some text => s.give p text
    | none => .ok { s with pending := some (p, none) }

def operand (s : Progress) (text : String) : Option (Except Usage Progress) :=
  match s.operands with
  | [] => none
  | p :: rest =>
    some (s.settle.map fun s => { s with pending := some (p, some text), operands := rest })

end Progress

/-- An argument that fits nowhere. Where a verb is expected it is a wrong verb, unless
it is one that stands where only operands may. -/
def misplaced (l : Level) (s : Progress) (text : String) : Usage :=
  let isVerb := (Verb.ofText? text).isSome || text == "help"
  if l.takesVerb && !(s.literal && isVerb) then .invalidCommand else .unknownArgument

/-- A text for the option that waits for one, else an operand. -/
def readText (l : Level) (s : Progress) (text : String) : Except Usage Progress :=
  match s.pending, s.literal with
  | some (p, none), false => .ok { s with pending := some (p, some text) }
  | _, _ => (s.operand text).getD (.error (misplaced l s text))

/-- The word of a long option, and what is attached to it after an equals sign. -/
def splitWord (text : List Char) : String × Option String :=
  let word := String.ofList (text.takeWhile (· ≠ '='))
  match text.dropWhile (· ≠ '=') with
  | [] => (word, none)
  | _ :: attached => (word, some (String.ofList attached))

def readLong (l : Level) (s : Progress) (argument : String) (body : List Char) :
    Except Usage Progress :=
  let (word, attached) := splitWord body
  match l.option? word, l.switch? word with
  | some p, _ => s.option p attached
  | none, some p => if attached.isSome then .error .tooManyValues else s.switch p
  | none, none =>
    if s.allowsHyphen then readText l s argument else .error .unknownArgument

def readLetters (l : Level) (s : Progress) (argument : String) (letters : List Char) :
    Except Usage Progress :=
  if s.allowsHyphen && letters.any fun c => (l.switchOfLetter? c).isNone then
    readText l s argument
  else
    match letters.head?.bind l.switchOfLetter? with
    | some p => s.switch p
    | none => .error .unknownArgument

/-- Read an argument that is no verb. -/
def readArgument (l : Level) (s : Progress) (argument : String) : Except Usage Progress :=
  if s.literal then readText l s argument
  else
    match argument.toList with
    | ['-', '-'] => .ok { s with literal := true }
    | '-' :: '-' :: body => readLong l s argument body
    | '-' :: c :: letters => readLetters l s argument (c :: letters)
    | _ => readText l s argument

/-- The help verb takes the verb to be explained, at most one. -/
def helpOutcome : List String → Usage
  | [] => .help
  | [topic] =>
    if (Verb.ofText? topic).isSome || topic == "help" then .help else .invalidCommand
  | _ => .invalidCommand

/-- Read the arguments of one place up to a verb, if verbs are expected. -/
def readPlace (l : Level) (s : Progress) :
    List String → Except Usage (Progress × Option (Verb × List String))
  | [] => .ok (s, none)
  | argument :: rest =>
    if l.takesVerb && !s.waits && !s.literal && argument == "help" then
      .error (helpOutcome rest)
    else
      match if l.takesVerb && !s.waits && !s.literal then Verb.ofText? argument else none with
      | some verb => .ok (s, some (verb, rest))
      | none =>
        match readArgument l s argument with
        | .error fault => .error fault
        | .ok s => readPlace l s rest

/-- End a place: the last parameter is checked, then the signal list named by the
environment if the place names none, then that no operand is missing. -/
def Progress.finish (s : Progress) (environment : Option String) : Except Usage Progress :=
  match s.settle with
  | .error fault => .error fault
  | .ok s =>
    let inherited := if s.isGiven .signals then none else environment
    match inherited.bind Parameter.notEmpty with
    | some fault => .error fault
    | none => if s.operands.isEmpty then .ok s else .error .missingArgument

inductive Request where
  | catalog
  | encode (request : EncodeRequest)
  | decode (hex : String)
  | replay (file : String) (strict : Bool)
  | version (extended : Bool)
  deriving DecidableEq, Repr

/-- A command to run. Without a format the place of the output decides. -/
structure Invocation where
  format : Option Format
  /-- The path of the signal list, if not the built-in one. -/
  signals : Option String
  request : Request
  deriving DecidableEq, Repr

def textOf? (given : List (Parameter × String)) (p : Parameter) : Option String :=
  (given.find? (·.1 == p)).map (·.2)

/-- The value of a parameter, by a reader that took its text before. -/
def valueOf {α : Type} (given : List (Parameter × String)) (p : Parameter)
    (read : List Char → Except String α) (default : α) : α :=
  match textOf? given p with
  | none => default
  | some text => (read text.toList).toOption.getD default

def request (given : List (Parameter × String)) : Verb → Request
  | .catalog => .catalog
  | .encode =>
    .encode ⟨(textOf? given .name).getD "", (textOf? given .value).getD "",
      valueOf given .device readByte 0, valueOf given .priority readByte 0x80,
      valueOf given .timestamp readWord 0⟩
  | .decode => .decode ((textOf? given .hex).getD "")
  | .replay => .replay ((textOf? given .file).getD "") (textOf? given .strict).isSome
  | .version => .version (textOf? given .extended).isSome

/-- What stands after the verb counts before what stands in front of it, and that
before the environment. -/
def invocation (environment : Option String) (verb : Verb)
    (front behind : List (Parameter × String)) : Invocation :=
  let all := behind ++ front
  ⟨(textOf? all .format).bind Format.ofText?, (textOf? all .signals).or environment,
    request behind verb⟩

/-- No verb: a fault, unless nothing at all was given. -/
def withoutVerb (environment : Option String) (front : Progress) : Usage :=
  if front.given.isEmpty && environment.isNone then .nothingGiven else .missingCommand

/-- The command that arguments ask for. -/
def readArguments (environment : Option String) (arguments : List String) :
    Except Usage Invocation :=
  match readPlace .top (.start .top) arguments with
  | .error fault => .error fault
  | .ok (front, none) =>
    match front.finish environment with
    | .error fault => .error fault
    | .ok front => .error (withoutVerb environment front)
  | .ok (front, some (verb, rest)) =>
    match readPlace (.after verb) (.start (.after verb)) rest with
    | .error fault => .error fault
    | .ok (behind, _) =>
      match behind.finish environment with
      | .error fault => .error fault
      | .ok behind =>
        match front.finish environment with
        | .error fault => .error fault
        | .ok front => .ok (invocation environment verb front.given behind.given)

end Command
end InstrumentBus
