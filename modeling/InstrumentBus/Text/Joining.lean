import InstrumentBus.Text.CharacterClass

/-!
# Letters that join

Letters of some scripts join those beside them into one sign. Here are the letters
that do, by script, and the marks across which they do.
-/

namespace InstrumentBus
namespace Text

/-- Letters of the joining group of lam. -/
def lams : CodeRanges := [
  (0x0644, 0x0644), (0x06b5, 0x06b8), (0x076a, 0x076a), (0x08a6, 0x08a6), (0x08c7, 0x08c7)]

/-- Letters of the joining group of alef. -/
def alefs : CodeRanges := [
  (0x0622, 0x0623), (0x0625, 0x0625), (0x0627, 0x0627), (0x0671, 0x0673), (0x0675, 0x0675),
  (0x0773, 0x0774), (0x0870, 0x0882)]

/-- Format characters that lam and alef join across, as they do across marks. -/
def transparentFormats : CodeRanges := [
  (0x00ad, 0x00ad), (0x061c, 0x061c), (0x070f, 0x070f), (0x200b, 0x200b), (0x200e, 0x200f),
  (0x202a, 0x202e), (0x2060, 0x2064), (0x206a, 0x206f), (0xfeff, 0xfeff), (0x1bca0, 0x1bca3),
  (0x1d173, 0x1d17a), (0xe0001, 0xe0001), (0xe0020, 0xe007f)]

/-- The joiner of Tifinagh, a mark that shows unless it joins two consonants. -/
def tifinaghJoiner : Nat := 0x2d7f

/-- The characters across which lam and alef join. -/
def isTransparent (c : Char) : Bool :=
  (nonspacing.has c && c.toNat != tifinaghJoiner) || transparentFormats.has c

/-- Marks that a display passes over. Other joining letters join across them. -/
def unseenMarks : CodeRanges := [
  (0x034f, 0x034f), (0x17b4, 0x17b5), (0x180b, 0x180d), (0x180f, 0x180f), (0xfe00, 0xfe0f),
  (0xe0100, 0xe01ef)]

/-- Consonants of Khmer that are written below the one before them. -/
def khmerSubscripts : CodeRanges := [
  (0x1780, 0x1782), (0x1784, 0x1787), (0x1789, 0x178c), (0x178e, 0x1793), (0x1795, 0x1798),
  (0x179b, 0x179d), (0x17a0, 0x17a0), (0x17a2, 0x17a2), (0x17a7, 0x17a7), (0x17ab, 0x17ac),
  (0x17af, 0x17af)]

def tifinaghConsonants : CodeRanges := [(0x2d31, 0x2d65), (0x2d6f, 0x2d6f)]

/-- Tone letters of Lisu, first and second of a pair. -/
def lisuFirstTones : CodeRanges := [(0xa4f8, 0xa4fb)]
def lisuSecondTones : CodeRanges := [(0xa4fc, 0xa4fd)]

/-- Letters of which only these two, with a joiner between them, are written as one. -/
def hebrewAlef : Nat := 0x5d0
def hebrewLamed : Nat := 0x5dc

def turkicCh : Nat := 0x10c32
def turkicI : Nat := 0x10c03

/-- The letters of the word iya, joined behind the vowel. -/
def bugineseA : Nat := 0x1a15
def bugineseVowelI : Nat := 0x1a17
def bugineseYa : Nat := 0x1a10

/-- The sign that puts the Khmer letter behind it below the one in front. -/
def khmerCoeng : Nat := 0x17d2

/-- Vowel signs of Kirat Rai: AI is two E, O is AA and E, and AU is O and E. -/
def kiratAa : Nat := 0x16d63
def kiratE : Nat := 0x16d67
def kiratAi : Nat := 0x16d68
def kiratO : Nat := 0x16d69

def zeroWidthJoiner : Nat := 0x200d

end Text
end InstrumentBus
