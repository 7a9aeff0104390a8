import Crossref.Text.Ranges

/-!
# Blank characters

The characters with the Unicode property White_Space. They include the line separators and the
no-break spaces, but not the zero-width space and not the byte order mark.
-/

namespace Crossref.Text

/-- The code points with the property White_Space. -/
def blankRanges : List (Nat × Nat) :=
  [(0x9, 0xd), (0x20, 0x20), (0x85, 0x85), (0xa0, 0xa0), (0x1680, 0x1680), (0x2000, 0x200a),
   (0x2028, 0x2029), (0x202f, 0x202f), (0x205f, 0x205f), (0x3000, 0x3000)]

/-- Blank characters separate tokens and mean nothing else. -/
def isBlank (c : Char) : Bool := inRanges blankRanges c

end Crossref.Text
