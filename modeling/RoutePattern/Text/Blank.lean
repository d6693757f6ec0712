import RoutePattern.Text.Basic

/-!
# Blank characters

The characters with the Unicode property `White_Space`. Besides the blank and the controls from
tab to carriage return this takes in the next-line control, the no-break spaces and the typographic
spaces; the zero-width space, the byte order mark and the information separators are not blank.
-/

namespace RoutePattern.Text

/-- The code points with the property `White_Space`. -/
def blankTable : CharTable :=
  [(0x9, 0xD), (0x20, 0x20), (0x85, 0x85), (0xA0, 0xA0), (0x1680, 0x1680), (0x2000, 0x200A),
   (0x2028, 0x2029), (0x202F, 0x202F), (0x205F, 0x205F), (0x3000, 0x3000)]

/-- Is the character white space? -/
def isBlank (c : Char) : Bool := blankTable.has c

end RoutePattern.Text
