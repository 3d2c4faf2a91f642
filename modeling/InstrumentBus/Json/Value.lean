import InstrumentBus.Numeric.Interchange

/-!
# JSON values

A number is an integer when its literal is one and fits 64 bits, else a double.
Members of an object are a list; the values read from a text have theirs in
ascending order of keys, each key once.
-/

namespace InstrumentBus
namespace Json

open Numeric

inductive Number where
  | integer (n : Int)
  | double (x : Binary64)
  deriving DecidableEq

inductive Value where
  | null
  | bool (b : Bool)
  | number (n : Number)
  | text (s : String)
  | array (items : List Value)
  | object (members : List (String × Value))

/-- The value nearest to a number among the doubles. -/
def Number.toBinary64 : Number → Binary64
  | .integer n => .ofInt n
  | .double x => x

/-- A member put at its place by key, in the stead of one with the same key. -/
def insertMember (key : String) (value : Value) :
    List (String × Value) → List (String × Value)
  | [] => [(key, value)]
  | (k, v) :: rest =>
    if key = k then (key, value) :: rest
    else if key < k then (key, value) :: (k, v) :: rest
    else (k, v) :: insertMember key value rest

/-- The members of an object as written, ordered by key; of equal keys the last one counts. -/
def orderMembers (members : List (String × Value)) : List (String × Value) :=
  members.foldl (fun ordered (key, value) => insertMember key value ordered) []

/-- The value a list of members holds for a key. -/
def member? (key : String) (members : List (String × Value)) : Option Value :=
  (members.find? (·.1 == key)).map (·.2)

end Json
end InstrumentBus
