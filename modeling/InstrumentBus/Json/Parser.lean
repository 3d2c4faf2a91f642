import InstrumentBus.Json.Text

/-!
# Reading JSON

A document is cut into lexemes, and each lexeme moves a machine whose stack holds
the arrays and objects still open. A lexeme with a fault of its own only counts
where it could stand; anywhere else it is malformed like any other.
-/

namespace InstrumentBus
namespace Json

inductive Lexeme where
  | openArray
  | closeArray
  | openObject
  | closeObject
  | comma
  | colon
  | text (s : Except Fault String)
  | scalar (v : Except Fault Value)
  | other

/-- The rest of a word, character by character. -/
def scanWord (value : Value) : List Char → List Char → Except Fault Value × List Char
  | [], text => (.ok value, text)
  | _ :: _, [] => (.error .truncated, [])
  | w :: word, c :: text => if c = w then scanWord value word text else (.error .malformed, [])

theorem length_scanWord (value : Value) (word text : List Char) :
    (scanWord value word text).2.length ≤ text.length := by
  fun_induction scanWord value word text with
  | case1 => simp
  | case2 => simp
  | case3 word text w ih => simp only [List.length_cons]; omega
  | case4 => simp

def punctuation? (c : Char) : Option Lexeme :=
  if c = '[' then some .openArray
  else if c = ']' then some .closeArray
  else if c = '\x7b' then some .openObject
  else if c = '\x7d' then some .closeObject
  else if c = ',' then some .comma
  else if c = ':' then some .colon
  else none

def textLexeme (r : Except Fault String × List Char) : Lexeme × List Char := (.text r.1, r.2)

def wordLexeme (r : Except Fault Value × List Char) : Lexeme × List Char := (.scalar r.1, r.2)

def numberLexeme (r : Except Fault Number × List Char) : Lexeme × List Char :=
  (.scalar (r.1.map .number), r.2)

/-- The lexeme that starts with `c`, and the text after it. -/
def nextLexeme (c : Char) (rest : List Char) : Lexeme × List Char :=
  match punctuation? c with
  | some lexeme => (lexeme, rest)
  | none =>
    if c = '"' then textLexeme (scanText [] rest)
    else if c = 'n' then wordLexeme (scanWord .null ['u', 'l', 'l'] rest)
    else if c = 't' then wordLexeme (scanWord (.bool true) ['r', 'u', 'e'] rest)
    else if c = 'f' then wordLexeme (scanWord (.bool false) ['a', 'l', 's', 'e'] rest)
    else if c = '-' then numberLexeme (scanNumber true rest)
    else if c.isDigit then numberLexeme (scanNumber false (c :: rest))
    else (.other, rest)

theorem length_nextLexeme (c : Char) (rest : List Char) :
    (nextLexeme c rest).2.length ≤ rest.length := by
  have hd : (rest.dropWhile Char.isDigit).length ≤ rest.length :=
    (List.dropWhile_suffix Char.isDigit).length_le
  unfold nextLexeme
  split
  · exact Nat.le_refl _
  · split
    · exact length_scanText _ _
    · split
      · exact length_scanWord _ _ _
      · split
        · exact length_scanWord _ _ _
        · split
          · exact length_scanWord _ _ _
          · split
            · exact Nat.le_trans (length_scanNumber _ _) hd
            · split
              · next hc =>
                refine Nat.le_trans (length_scanNumber _ _) ?_
                rw [List.dropWhile_cons_of_pos hc]
                exact hd
              · exact Nat.le_refl _

/-- An array or object still open around the place that is read. -/
inductive Frame where
  | array (reversed : List Value)
  | object (reversed : List (String × Value)) (name : String)

/-- What may come next, and the containers still open. -/
inductive State where
  | value (stack : List Frame)
  | firstItem (stack : List Frame)
  | nextItem (reversed : List Value) (stack : List Frame)
  | firstKey (stack : List Frame)
  | key (reversed : List (String × Value)) (stack : List Frame)
  | colon (reversed : List (String × Value)) (name : String) (stack : List Frame)
  | nextMember (reversed : List (String × Value)) (stack : List Frame)
  | done (v : Value)

/-- The deepest nesting of arrays and objects. -/
def maxDepth : Nat := 127

/-- A finished value goes to the container around it. -/
def State.finished (v : Value) : List Frame → State
  | [] => .done v
  | .array reversed :: stack => .nextItem (v :: reversed) stack
  | .object reversed name :: stack => .nextMember ((name, v) :: reversed) stack

/-- A lexeme where a value must stand. -/
def State.begin (stack : List Frame) : Lexeme → Except Fault State
  | .openArray => if maxDepth ≤ stack.length then .error .malformed else .ok (.firstItem stack)
  | .openObject => if maxDepth ≤ stack.length then .error .malformed else .ok (.firstKey stack)
  | .text s => s.map fun s => .finished (.text s) stack
  | .scalar v => v.map fun v => .finished v stack
  | _ => .error .malformed

/-- A lexeme where a key must stand. -/
def State.beginKey (reversed : List (String × Value)) (stack : List Frame) :
    Lexeme → Except Fault State
  | .text s => s.map fun s => .colon reversed s stack
  | _ => .error .malformed

def State.closeArray (reversed : List Value) (stack : List Frame) : State :=
  .finished (.array reversed.reverse) stack

def State.closeObject (reversed : List (String × Value)) (stack : List Frame) : State :=
  .finished (.object (orderMembers reversed.reverse)) stack

def State.step : State → Lexeme → Except Fault State
  | .value stack, lexeme => begin stack lexeme
  | .firstItem stack, .closeArray => .ok (.closeArray [] stack)
  | .firstItem stack, lexeme => begin (.array [] :: stack) lexeme
  | .nextItem reversed stack, .closeArray => .ok (.closeArray reversed stack)
  | .nextItem reversed stack, .comma => .ok (.value (.array reversed :: stack))
  | .firstKey stack, .closeObject => .ok (.closeObject [] stack)
  | .firstKey stack, lexeme => beginKey [] stack lexeme
  | .key reversed stack, lexeme => beginKey reversed stack lexeme
  | .colon reversed name stack, .colon => .ok (.value (.object reversed name :: stack))
  | .nextMember reversed stack, .closeObject => .ok (.closeObject reversed stack)
  | .nextMember reversed stack, .comma => .ok (.key reversed stack)
  | _, _ => .error .malformed

/-- The only characters allowed between lexemes. -/
def isSpace (c : Char) : Bool := c = ' ' || c = '\t' || c = '\n' || c = '\r'

/-- The value of a document read on from a state. -/
def parseFrom (state : State) (text : List Char) : Except Fault Value :=
  match text with
  | [] =>
    match state with
    | .done v => .ok v
    | _ => .error .truncated
  | c :: rest =>
    if isSpace c then parseFrom state rest
    else
      match state.step (nextLexeme c rest).1 with
      | .error fault => .error fault
      | .ok state => parseFrom state (nextLexeme c rest).2
termination_by text.length
decreasing_by
  · simp
  · have := length_nextLexeme c rest; simp only [List.length_cons]; omega

/-- The value of a document. -/
def parse (text : List Char) : Except Fault Value := parseFrom (.value []) text

end Json
end InstrumentBus
