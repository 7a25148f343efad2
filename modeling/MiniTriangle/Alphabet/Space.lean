import MiniTriangle.Alphabet.Ranges

/-! White space: the characters that separate tokens. -/

namespace MiniTriangle.Alphabet

/-- Blanks, tabs, line ends, the four ASCII separators U+001C to U+001F, and the space separators of
Unicode. -/
def spaceRanges : Ranges :=
  [(0x9, 0xD), (0x1C, 0x20), (0x85, 0x85), (0xA0, 0xA0), (0x1680, 0x1680), (0x2000, 0x200A),
   (0x2028, 0x2029), (0x202F, 0x202F), (0x205F, 0x205F), (0x3000, 0x3000)]

def isSpace (c : Char) : Bool := spaceRanges.has c.toNat

/-- White space that may stand around the digits of an integer: all of it but the four ASCII separators. -/
def isBlank (c : Char) : Bool := isSpace c && !(0x1C ≤ c.toNat && c.toNat ≤ 0x1F)

end MiniTriangle.Alphabet
