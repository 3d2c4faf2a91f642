import InstrumentBus.Json.Number
import InstrumentBus.Text.Numeral

/-!
# JSON text

A text stands between double quotes; escapes name quotes, controls and code
units of UTF-16, of which a leading surrogate needs its trailing one. An escape by
number that the end of the document cuts short is truncated, whatever its digits.
-/

namespace InstrumentBus
namespace Json

open Text.Numeral (digit?)

/-- The number of bytes a text takes in UTF-8. -/
def utf8Length (text : List Char) : Nat := text.foldr (fun c length => c.utf8Size + length) 0

/-- Four hexadecimal digits; a document with fewer than four bytes left is truncated. -/
def codeUnit (text : List Char) : Except Fault Nat :=
  match text with
  | a :: b :: c :: d :: _ =>
    match digit? 16 a, digit? 16 b, digit? 16 c, digit? 16 d with
    | some a, some b, some c, some d => .ok (4096 * a + 256 * b + 16 * c + d)
    | _, _, _, _ => .error .malformed
  | short => if utf8Length short < 4 then .error .truncated else .error .malformed

def isLeading (unit : Nat) : Bool := 0xd800 ≤ unit && unit ≤ 0xdbff

def isTrailing (unit : Nat) : Bool := 0xdc00 ≤ unit && unit ≤ 0xdfff

/-- The code point of a pair of surrogates. -/
def pairValue (leading trailing : Nat) : Nat :=
  0x10000 + 0x400 * (leading - 0xd800) + (trailing - 0xdc00)

/-- The trailing surrogate that must follow a leading one. -/
def trailingUnit (text : List Char) : Except Fault Nat :=
  match text with
  | [] => .error .truncated
  | ['\\'] => .error .truncated
  | '\\' :: 'u' :: rest =>
    match codeUnit rest with
    | .error fault => .error fault
    | .ok unit => if isTrailing unit then .ok unit else .error .malformed
  | _ => .error .malformed

/-- A character given by code units, and how many characters of the text it takes. -/
def unicodeEscape (text : List Char) : Except Fault (Char × Nat) :=
  match codeUnit text with
  | .error fault => .error fault
  | .ok unit =>
    if isTrailing unit then .error .malformed
    else if isLeading unit then
      match trailingUnit (text.drop 4) with
      | .error fault => .error fault
      | .ok trailing => .ok (Char.ofNat (pairValue unit trailing), 10)
    else .ok (Char.ofNat unit, 4)

/-- What follows a backslash: a character, and how many characters of the text it takes. -/
def escape (text : List Char) : Except Fault (Char × Nat) :=
  match text with
  | [] => .error .truncated
  | 'u' :: rest =>
    match unicodeEscape rest with
    | .error fault => .error fault
    | .ok (c, used) => .ok (c, used + 1)
  | '"' :: _ => .ok ('"', 1)
  | '\\' :: _ => .ok ('\\', 1)
  | '/' :: _ => .ok ('/', 1)
  | 'b' :: _ => .ok ('\x08', 1)
  | 'f' :: _ => .ok ('\x0c', 1)
  | 'n' :: _ => .ok ('\n', 1)
  | 'r' :: _ => .ok ('\r', 1)
  | 't' :: _ => .ok ('\t', 1)
  | _ => .error .malformed

/-- The text up to its closing quote, `reversed` being what was read so far, and
what follows the quote. -/
def scanText (reversed text : List Char) : Except Fault String × List Char :=
  match text with
  | [] => (.error .truncated, [])
  | c :: rest =>
    if c = '"' then (.ok (String.ofList reversed.reverse), rest)
    else if c = '\\' then
      match escape rest with
      | .error fault => (.error fault, [])
      | .ok (x, used) => scanText (x :: reversed) (rest.drop used)
    else if c.toNat < 0x20 then (.error .malformed, [])
    else scanText (c :: reversed) rest
termination_by text.length
decreasing_by
  · simp only [List.length_drop, List.length_cons]; omega
  · simp

theorem length_scanText (reversed text : List Char) :
    (scanText reversed text).2.length ≤ text.length := by
  fun_induction scanText reversed text with
  | case1 => simp
  | case2 => simp
  | case3 => simp
  | case4 reversed rest _ x used _ ih =>
    simp only [List.length_drop, List.length_cons] at ih ⊢; omega
  | case5 => simp
  | case6 reversed c rest _ _ _ ih => simp only [List.length_cons]; omega

end Json
end InstrumentBus
