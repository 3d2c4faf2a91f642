import InstrumentBus.Json.Printer

/-!
# The schema of signal lists

Which documents have the outline of a signal list, told by the violations of the
others. A value of the wrong type is one violation, and nothing more is said about
it. An object reports its missing keys, then its members in order of keys, then
the keys it should not have.
-/

namespace InstrumentBus
namespace SignalList

open Json Numeric

inductive Violation where
  | wrongType (v : Value) (type : String)
  | missingKey (key : String)
  | belowMinimum (v : Value) (bound : Nat)
  | aboveMaximum (v : Value) (bound : Nat)
  | emptyText (v : Value)
  | noChoice (v : Value)
  | noAlternative (v : Value)
  | unexpectedKeys (keys : List String)

def Violation.message : Violation → String
  | .wrongType v type => s!"{v.render} is not of type \"{type}\""
  | .missingKey key => s!"\"{key}\" is a required property"
  | .belowMinimum v bound => s!"{v.render} is less than the minimum of {bound}"
  | .aboveMaximum v bound => s!"{v.render} is greater than the maximum of {bound}"
  | .emptyText v => s!"{v.render} is shorter than 1 character"
  | .noChoice v => s!"{v.render} is not one of \"fixed\", \"integer\" or \"buffer\""
  | .noAlternative v =>
    s!"{v.render} is not valid under any of the schemas listed in the 'oneOf' keyword"
  | .unexpectedKeys keys =>
    let quoted := ", ".intercalate (keys.map fun k => s!"'{k}'")
    let verb := if keys.length = 1 then "was" else "were"
    s!"Additional properties are not allowed ({quoted} {verb} unexpected)"

/-- At most four violations are reported. -/
def reportLength : Nat := 4

def report (violations : List Violation) : String :=
  "; ".intercalate ((violations.take reportLength).map Violation.message)

/-- Whether a number has no fraction. -/
def isWhole : Number → Bool
  | .integer _ => true
  | .double (.finite _ m) => m.units % unitsPerOne == 0
  | .double _ => false

/-- Whether a number lies below or above a natural number. -/
def isBelow (n : Number) (bound : Nat) : Bool :=
  match n with
  | .integer n => n < bound
  | .double x => x.lt (.ofNat bound)

def isAbove (n : Number) (bound : Nat) : Bool :=
  match n with
  | .integer n => (bound : Int) < n
  | .double x => (Binary64.ofNat bound).lt x

/-- An integer, between zero and a bound if one is given. -/
def checkInteger (bound : Option Nat) : Value → List Violation
  | .number n =>
    if !isWhole n then [.wrongType (.number n) "integer"]
    else match bound with
      | none => []
      | some bound =>
        if isBelow n 0 then [.belowMinimum (.number n) 0]
        else if isAbove n bound then [.aboveMaximum (.number n) bound]
        else []
  | v => [.wrongType v "integer"]

def checkText : Value → List Violation
  | .text _ => []
  | v => [.wrongType v "string"]

def checkName : Value → List Violation
  | .text s => if s.isEmpty then [.emptyText (.text s)] else []
  | v => [.wrongType v "string"]

def typeNames : List String := ["fixed", "integer", "buffer"]

def checkType : Value → List Violation
  | .text s => if typeNames.contains s then [] else [.noChoice (.text s)]
  | v => [.noChoice v]

def checkResolution : Value → List Violation
  | .number _ | .text _ => []
  | v => [.noAlternative v]

/-- The checks of an object: the keys it must have, and what each key it may have demands. -/
structure Outline where
  required : List String
  members : List (String × (Value → List Violation))

/-- The violations of one member; an unknown key has none of its own. -/
def Outline.checkMember (o : Outline) (member : String × Value) : List Violation :=
  match o.members.find? (·.1 == member.1) with
  | some (_, check) => check member.2
  | none => []

def Outline.check (o : Outline) : Value → List Violation
  | .object members =>
    let keys := members.map (·.1)
    let missing := o.required.filter (!keys.contains ·)
    let unexpected := keys.filter fun k => !(o.members.any (·.1 == k))
    missing.map .missingKey ++ members.flatMap o.checkMember
      ++ (if unexpected.isEmpty then [] else [.unexpectedKeys unexpected])
  | v => [.wrongType v "object"]

def signalOutline : Outline where
  required := ["cat_id", "sub_id", "name", "timeout"]
  members := [
    ("cat_id", checkInteger (some 255)),
    ("sub_id", checkInteger (some 255)),
    ("name", checkName),
    ("description", checkText),
    ("timeout", checkInteger (some 4294967295)),
    ("type", checkType),
    ("units", checkText),
    ("resolution", checkResolution),
    ("length", checkInteger (some 4096))]

def checkSignals : Value → List Violation
  | .array items => items.flatMap signalOutline.check
  | v => [.wrongType v "array"]

def listOutline : Outline where
  required := ["version", "signals"]
  members := [("version", checkInteger none), ("signals", checkSignals)]

/-- The violations of a document, in the order they are reported. -/
def violations (document : Value) : List Violation := listOutline.check document

end SignalList
end InstrumentBus
