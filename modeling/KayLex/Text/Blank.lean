import KayLex.Text.Ranges

/-!
Blank characters: the spaces and separators of the Unicode standard, version
14.0, together with the control characters that break or indent a line. The
whole table is a handful of ranges.
-/

namespace KayLex.Text

def blankRanges : Ranges :=
  [(0x9, 0xD), (0x1C, 0x20), (0x85, 0x85), (0xA0, 0xA0), (0x1680, 0x1680), (0x2000, 0x200A),
   (0x2028, 0x2029), (0x202F, 0x202F), (0x205F, 0x205F), (0x3000, 0x3000)]

/-- Whether a character only separates what stands around it. -/
def isBlank (c : Char) : Bool := blankRanges.covers c.toNat

theorem blankRanges_ascend : blankRanges.ascendsFrom 0 = true := by decide

end KayLex.Text
