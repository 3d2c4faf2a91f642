import InstrumentBus.Text.CharacterClass

/-!
# Quoted text

A text stands between double quotes, a single character between apostrophes. The
mark that closes the quotation, backslashes and the common controls are escaped by
a letter or by themselves, and every other character that cannot be seen by its
code point. The mark of the other kind of quotation needs no escape.
-/

namespace InstrumentBus
namespace Text

def hexDigits (n : Nat) : String := String.ofList (Nat.toDigits 16 n)

/-- The mark around a text. -/
def textMark : Char := '"'

/-- The mark around a single character. -/
def characterMark : Char := '\x27'

/-- A character inside a quotation that `mark` closes. -/
def escape (mark c : Char) : String :=
  if c = mark then "\\" ++ c.toString
  else match c with
  | '\\' => "\\\\"
  | '\n' => "\\n"
  | '\r' => "\\r"
  | '\t' => "\\t"
  | '\x00' => "\\0"
  | c =>
    if 0x20 ≤ c.toNat && c.toNat ≤ 0x7e then c.toString
    else if isHidden c then "\\u\x7b" ++ hexDigits c.toNat ++ "\x7d"
    else c.toString

/-- The characters of a quotation between two marks. -/
def enclose (mark : Char) (text : List Char) : String :=
  mark.toString ++ String.join (text.map (escape mark)) ++ mark.toString

def quote (text : List Char) : String := enclose textMark text

def quoteCharacter (c : Char) : String := enclose characterMark [c]

end Text
end InstrumentBus
