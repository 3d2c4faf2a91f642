import InstrumentBus.Text.Emoji
import InstrumentBus.Text.Joining

/-!
# Widths of lines

How many columns a line takes on a terminal. Most characters take one column, wide
ones two, and marks none; but some characters join those around them, so that a
line is measured from its end, each character in view of what stands behind it.
-/

namespace InstrumentBus
namespace Text

/-! ## Single characters -/

/-- Characters two columns wide, among them all of the ideographic planes. -/
def wide : CodeRanges := [
  (0x1100, 0x115f), (0x231a, 0x231b), (0x2329, 0x232a), (0x23e9, 0x23ec), (0x23f0, 0x23f0),
  (0x23f3, 0x23f3), (0x25fd, 0x25fe), (0x2614, 0x2615), (0x2630, 0x2637), (0x2648, 0x2653),
  (0x267f, 0x267f), (0x268a, 0x268f), (0x2693, 0x2693), (0x26a1, 0x26a1), (0x26aa, 0x26ab),
  (0x26bd, 0x26be), (0x26c4, 0x26c5), (0x26ce, 0x26ce), (0x26d4, 0x26d4), (0x26ea, 0x26ea),
  (0x26f2, 0x26f3), (0x26f5, 0x26f5), (0x26fa, 0x26fa), (0x26fd, 0x26fd), (0x2705, 0x2705),
  (0x270a, 0x270b), (0x2728, 0x2728), (0x274c, 0x274c), (0x274e, 0x274e), (0x2753, 0x2755),
  (0x2757, 0x2757), (0x2795, 0x2797), (0x27b0, 0x27b0), (0x27bf, 0x27bf), (0x2b1b, 0x2b1c),
  (0x2b50, 0x2b50), (0x2b55, 0x2b55), (0x2e80, 0x2e99), (0x2e9b, 0x2ef3), (0x2f00, 0x2fd5),
  (0x2ff0, 0x303e), (0x3041, 0x3096), (0x3099, 0x30ff), (0x3105, 0x312f), (0x3131, 0x318e),
  (0x3190, 0x31e5), (0x31ef, 0x321e), (0x3220, 0x3247), (0x3250, 0xa48c), (0xa490, 0xa4c6),
  (0xa960, 0xa97c), (0xac00, 0xd7a3), (0xf900, 0xfaff), (0xfe10, 0xfe19), (0xfe30, 0xfe52),
  (0xfe54, 0xfe66), (0xfe68, 0xfe6b), (0xff01, 0xff60), (0xffe0, 0xffe6), (0x16fe0, 0x16fe4),
  (0x16ff0, 0x16ff6), (0x17000, 0x18cd5), (0x18cff, 0x18d1e), (0x18d80, 0x18df2),
  (0x1aff0, 0x1aff3), (0x1aff5, 0x1affb), (0x1affd, 0x1affe), (0x1b000, 0x1b122),
  (0x1b132, 0x1b132), (0x1b150, 0x1b152), (0x1b155, 0x1b155), (0x1b164, 0x1b167),
  (0x1b170, 0x1b2fb), (0x1d300, 0x1d356), (0x1d360, 0x1d376), (0x1f004, 0x1f004),
  (0x1f0cf, 0x1f0cf), (0x1f18e, 0x1f18e), (0x1f191, 0x1f19a), (0x1f200, 0x1f202),
  (0x1f210, 0x1f23b), (0x1f240, 0x1f248), (0x1f250, 0x1f251), (0x1f260, 0x1f265),
  (0x1f300, 0x1f320), (0x1f32d, 0x1f335), (0x1f337, 0x1f37c), (0x1f37e, 0x1f393),
  (0x1f3a0, 0x1f3ca), (0x1f3cf, 0x1f3d3), (0x1f3e0, 0x1f3f0), (0x1f3f4, 0x1f3f4),
  (0x1f3f8, 0x1f43e), (0x1f440, 0x1f440), (0x1f442, 0x1f4fc), (0x1f4ff, 0x1f53d),
  (0x1f54b, 0x1f54e), (0x1f550, 0x1f567), (0x1f57a, 0x1f57a), (0x1f595, 0x1f596),
  (0x1f5a4, 0x1f5a4), (0x1f5fb, 0x1f64f), (0x1f680, 0x1f6c5), (0x1f6cc, 0x1f6cc),
  (0x1f6d0, 0x1f6d2), (0x1f6d5, 0x1f6d8), (0x1f6dc, 0x1f6df), (0x1f6eb, 0x1f6ec),
  (0x1f6f4, 0x1f6fc), (0x1f7e0, 0x1f7eb), (0x1f7f0, 0x1f7f0), (0x1f90c, 0x1f93a),
  (0x1f93c, 0x1f945), (0x1f947, 0x1f9ff), (0x1fa70, 0x1fa7c), (0x1fa80, 0x1fa8a),
  (0x1fa8e, 0x1fac6), (0x1fac8, 0x1fac8), (0x1facd, 0x1fadc), (0x1fadf, 0x1faea),
  (0x1faef, 0x1faf8), (0x20000, 0x2fffd), (0x30000, 0x3fffd)]

/-- The vowels and final consonants of Hangul, which stand inside the syllable before them. -/
def syllableParts : CodeRanges := [(0x1160, 0x11ff), (0xd7b0, 0xd7c6), (0xd7cb, 0xd7fb)]

/-- Signs written above or around the characters that follow them. -/
def overSigns : CodeRanges := [
  (0x0605, 0x0605), (0x070f, 0x070f), (0x0890, 0x0891), (0x08e2, 0x08e2), (0xa8fa, 0xa8fa)]

/-- Letters that attach to the syllable that follows them. -/
def leadingParts : CodeRanges := [
  (0x0d4e, 0x0d4e), (0x111c2, 0x111c3), (0x113d1, 0x113d1), (0x1193f, 0x1193f), (0x11941, 0x11941),
  (0x11a3a, 0x11a3a), (0x11a84, 0x11a89), (0x11d46, 0x11d46), (0x11f02, 0x11f02)]

/-- Characters that take room although their class does not: the filler in front of a
syllable of Hangul, the joiner of Tifinagh, and the sound marks of halfwidth kana. -/
def roomTakers : CodeRanges := [(0x115f, 0x115f), (0x2d7f, 0x2d7f), (0xff9e, 0xff9f)]

/-- A character without a column of its own. -/
def isWidthless (c : Char) : Bool :=
  (ignorable.has c || isExtender c || syllableParts.has c || overSigns.has c || leadingParts.has c)
    && !roomTakers.has c

/-- A vowel of Khmer written with two letters, and a sign written with three. -/
def khmerQaa : Nat := 0x17a4
def khmerBeyyal : Nat := 0x17d8

/-- Quotation marks that a selector makes wide. -/
def curlyQuotes : CodeRanges := [(0x2018, 0x2019), (0x201c, 0x201d)]

/-- Selectors of a form of the character in front. -/
def wideSelector : Nat := 0xfe01
def textSelector : Nat := 0xfe0e
def pictureSelector : Nat := 0xfe0f

/-! ## What stands behind a character -/

/-- What the rest of a line begins with, as far as it matters to the character in
front. A letter that waits for a joiner says whether one is there. -/
inductive Head where
  | other
  | alef
  | hebrewLamed (joined : Bool)
  | bugineseYa (joined : Bool)
  | bugineseIYa
  | tifinagh (joined : Bool)
  | tifinaghPair
  | lisuTone
  | turkicI (joined : Bool)
  | khmerSubscript
  | kiratE
  | kiratAi
  | skinTone
  | flagLetter
  | flagLetters
  | picture
  /-- A joiner and a picture. -/
  | joinedPicture
  | joinedKeycap
  | joinedFlagLetter
  /-- Flag letters joined to a picture, whole flags or not. -/
  | joinedFlags (whole : Bool)
  | joinedTagEnd
  | joinedTagLetters (count : Nat)
  | joinedTagDigits (count : Nat)
  deriving DecidableEq, Repr

/-- Letters that join one in front of them. -/
def Head.isJoining : Head → Bool
  | .alef | .hebrewLamed _ | .bugineseYa _ | .bugineseIYa | .tifinagh _ | .tifinaghPair
  | .lisuTone | .turkicI _ | .khmerSubscript => true
  | _ => false

/-- Joining letters that unseen marks and joiners do not hide. -/
def Head.seesThrough : Head → Bool
  | .alef => false
  | head => head.isJoining

/-- What waits, behind a joiner, for a picture in front. -/
def Head.awaitsPicture : Head → Bool
  | .joinedPicture | .joinedKeycap => true
  | _ => false

def Head.withJoiner : Head → Head
  | .hebrewLamed _ => .hebrewLamed true
  | .bugineseYa _ => .bugineseYa true
  | .tifinagh _ => .tifinagh true
  | .turkicI _ => .turkicI true
  | head => head

/-- The rest of a line, with the selectors that stand between it and the character
in front. -/
structure Rest where
  head : Head
  asPicture : Bool
  asText : Bool
  asWide : Bool
  deriving DecidableEq, Repr

namespace Rest

def plain (head : Head) : Rest := ⟨head, false, false, false⟩

/-- A selector for pictures in front of a rest. It hides all but what joins across it. -/
def selectPicture (r : Rest) : Rest :=
  if r.head.isJoining || (r.head.awaitsPicture && !r.asPicture) then { r with asPicture := true }
  else { plain .other with asPicture := true }

def selectText (r : Rest) : Rest :=
  if r.head.isJoining then { r with asText := true } else { plain .other with asText := true }

def selectWide (r : Rest) : Rest :=
  if r.head.isJoining then { r with asWide := true } else { plain .other with asWide := true }

/-- The rest where a selector for pictures selects nothing. -/
def dropPicture (r : Rest) : Rest :=
  if r.head.isJoining then { r with asPicture := false } else plain .other

end Rest

/-! ## Measuring -/

/-- The width of a character by itself, and what a line that begins with it begins with. -/
def alone (c : Char) : Nat × Head :=
  let n := c.toNat
  if n = hebrewLamed then (1, .hebrewLamed false)
  else if alefs.has c then (1, .alef)
  else if khmerSubscripts.has c then (1, .khmerSubscript)
  else if n = khmerQaa then (2, .other)
  else if n = khmerBeyyal then (3, .other)
  else if n = bugineseYa then (1, .bugineseYa false)
  else if tifinaghConsonants.has c then (1, .tifinagh false)
  else if lisuSecondTones.has c then (1, .lisuTone)
  else if n = turkicI then (1, .turkicI false)
  else if n = kiratE then (1, .kiratE)
  else if n = kiratAi then (1, .kiratAi)
  else if flagLetters.has c then (1, .flagLetter)
  else if skinTones.has c then (2, .skinTone)
  else if pictures.has c then (2, .picture)
  else if isWidthless c then (0, .other)
  else if wide.has c then (2, .other)
  else (1, .other)

/-- How a character joins what stands behind it, if it does: what it adds to the
width, and what the line then begins with. -/
def joinWith (c : Char) (head : Head) : Option (Int × Head) :=
  let n := c.toNat
  let picture (head : Head) : Option (Int × Head) := some (0, head)
  match head with
  | .alef =>
    if lams.has c then some (0, .other)
    else if isTransparent c then some (0, .alef)
    else none
  | .hebrewLamed joined => if joined && n = hebrewAlef then some (0, .other) else none
  | .bugineseYa joined => if joined && n = bugineseVowelI then some (0, .bugineseIYa) else none
  | .bugineseIYa => if n = bugineseA then some (0, .other) else none
  | .tifinagh joined =>
    if n = tifinaghJoiner then some (1, .tifinaghPair)
    else if joined && tifinaghConsonants.has c then some (0, .other)
    else none
  | .tifinaghPair => if tifinaghConsonants.has c then some (-1, .other) else none
  | .lisuTone => if lisuFirstTones.has c then some (0, .other) else none
  | .turkicI joined => if joined && n = turkicCh then some (0, .other) else none
  | .khmerSubscript => if n = khmerCoeng then some (-1, .other) else none
  | .kiratE =>
    if n = kiratAa || n = kiratO then some (0, .other)
    else if n = kiratE then some (0, .kiratAi)
    else if n = kiratAi then some (1, .kiratE)
    else none
  | .kiratAi => if n = kiratAa then some (0, .other) else none
  | .skinTone =>
    if toneBases.has c then picture .picture
    else if n = zeroWidthJoiner then picture .joinedPicture
    else none
  | .flagLetter => if flagLetters.has c then some (1, .flagLetters) else none
  | .flagLetters =>
    if flagLetters.has c then some (1, .flagLetters)
    else if n = zeroWidthJoiner then picture .joinedPicture
    else none
  | .picture => if n = zeroWidthJoiner then picture .joinedPicture else none
  | .joinedPicture =>
    if n = keycap then picture .joinedKeycap
    else if flagLetters.has c then some (1, .joinedFlagLetter)
    else if skinTones.has c then picture .skinTone
    else if n = tagEnd then picture .joinedTagEnd
    else if pictures.has c then picture .picture
    else none
  | .joinedFlagLetter => if flagLetters.has c then some (-1, .joinedFlags true) else none
  | .joinedFlags whole =>
    if flagLetters.has c then some (if whole then 3 else -1, .joinedFlags !whole)
    else if n = zeroWidthJoiner then picture .joinedPicture
    else none
  | .joinedTagEnd =>
    if tagLetters.has c then picture (.joinedTagLetters 1)
    else if tagDigits.has c then picture (.joinedTagDigits 1)
    else none
  | .joinedTagLetters count =>
    if tagLetters.has c && count < 6 then picture (.joinedTagLetters (count + 1))
    else if tagDigits.has c && count < 5 then picture (.joinedTagDigits 1)
    else if n = blackFlag && 3 ≤ count then picture .picture
    else none
  | .joinedTagDigits count =>
    if tagDigits.has c && count < 3 then picture (.joinedTagDigits (count + 1))
    else if n = blackFlag && count = 3 then picture .picture
    else none
  | .joinedKeycap | .other => none

/-- What a character adds to the width of the rest of its line, and the rest it makes. -/
def addTo (c : Char) (r : Rest) : Int × Rest :=
  if r.asPicture && pictureBases.has c then
    (if r.head.awaitsPicture then 0 else 2, .plain .picture)
  else
    let r := if r.asPicture then r.dropPicture else r
    let n := c.toNat
    if n ≤ 0xa0 then (1, .plain .other)
    else if n = pictureSelector then (0, r.selectPicture)
    else if n = textSelector then (0, r.selectText)
    else if n = wideSelector then (0, r.selectWide)
    else if r.asText && plainBases.has c then (1, .plain .other)
    else if !r.asText && r.asWide && curlyQuotes.has c then (2, .plain .other)
    else
      let r := if r.asText then { r with asText := false } else { r with asWide := false }
      if r.head.seesThrough && n = zeroWidthJoiner then (0, { r with head := r.head.withJoiner })
      else if r.head.seesThrough && unseenMarks.has c then (0, r)
      else
        match if r.asWide then none else joinWith c r.head with
        | some (width, head) => (width, .plain head)
        | none => ((alone c).1, .plain (alone c).2)

/-- The number of columns of a line. -/
def lineWidth (line : String) : Nat :=
  (line.toList.foldr (fun c (width, r) =>
    let (more, r) := addTo c r
    (width + more, r)) ((0 : Int), Rest.plain .other)).1.toNat

end Text
end InstrumentBus
