import Lox.Text.Ranges

/-!
# Blank text

A text is blank if it is empty or holds nothing but white space, where white space is that of the
Unicode character database together with the four separator controls of ASCII.
-/

namespace Lox

/-- The code points of white space. -/
def blankRanges : CharRanges :=
  [(0x9, 0xD), (0x1C, 0x20), (0x85, 0x85), (0xA0, 0xA0), (0x1680, 0x1680), (0x2000, 0x200A),
    (0x2028, 0x2029), (0x202F, 0x202F), (0x205F, 0x205F), (0x3000, 0x3000)]

/-- White space. -/
def isBlankChar (c : Char) : Bool :=
  blankRanges.contains c

/-- A text of white space only. -/
def isBlank (text : String) : Bool :=
  text.toList.all isBlankChar

end Lox
