/-!
# Blank characters

The characters with the Unicode White_Space property, trimming, and the lines of
a text.
-/

namespace InstrumentBus
namespace Text

/-- The White_Space property of Unicode. -/
def isBlank (c : Char) : Bool :=
  (9 ≤ c.toNat && c.toNat ≤ 13) || c.toNat == 0x20 || c.toNat == 0x85 || c.toNat == 0xa0
    || c.toNat == 0x1680 || (0x2000 ≤ c.toNat && c.toNat ≤ 0x200a) || c.toNat == 0x2028
    || c.toNat == 0x2029 || c.toNat == 0x202f || c.toNat == 0x205f || c.toNat == 0x3000

def trimStart (text : List Char) : List Char := text.dropWhile isBlank

def trimEnd (text : List Char) : List Char := (text.reverse.dropWhile isBlank).reverse

def trim (text : List Char) : List Char := trimEnd (trimStart text)

theorem trimStart_of_head {c : Char} {rest : List Char} (h : isBlank c = false) :
    trimStart (c :: rest) = c :: rest := by
  simp [trimStart, h]

/-- A carriage return that ends a line belongs to its line break. -/
def dropReturn : List Char → List Char
  | '\r' :: reversed => reversed
  | reversed => reversed

/-- The lines of a text, `reversed` being the start of the first one read backwards.
A break ends a line; what follows the last break is a line only if it is not empty. -/
def linesFrom (reversed : List Char) : List Char → List (List Char)
  | [] => if reversed.isEmpty then [] else [reversed.reverse]
  | c :: rest =>
    if c = '\n' then (dropReturn reversed).reverse :: linesFrom [] rest
    else linesFrom (c :: reversed) rest

def lines (text : List Char) : List (List Char) := linesFrom [] text

/-- The text before the first blank and the text after it. -/
def splitAtBlank (text : List Char) : Option (List Char × List Char) :=
  match text.dropWhile (!isBlank ·) with
  | [] => none
  | _ :: rest => some (text.takeWhile (!isBlank ·), rest)

theorem splitAtBlank_append {word rest : List Char} {c : Char}
    (hw : ∀ x ∈ word, isBlank x = false) (hc : isBlank c = true) :
    splitAtBlank (word ++ c :: rest) = some (word, rest) := by
  have ht : (word ++ c :: rest).takeWhile (!isBlank ·) = word := by
    rw [List.takeWhile_append_of_pos (by simpa using hw)]
    simp [hc]
  have hd : (word ++ c :: rest).dropWhile (!isBlank ·) = c :: rest := by
    rw [List.dropWhile_append_of_pos (by simpa using hw)]
    simp [hc]
  simp only [splitAtBlank, hd, ht]

end Text
end InstrumentBus
