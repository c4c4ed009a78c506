import JavaUnit.Unicode.CodeRanges

/-!
# White space

The 25 characters with property `White_Space` of Unicode 17.  The no-break space and the
next-line control have it; the zero-width space and the byte-order mark have not.
-/

namespace JavaUnit
namespace Unicode

/-- The code points with property `White_Space`, as closed ranges in ascending order. -/
def whiteSpaceRanges : List CodeRange :=
  [(0x9, 0xD), (0x20, 0x20), (0x85, 0x85), (0xA0, 0xA0), (0x1680, 0x1680), (0x2000, 0x200A),
   (0x2028, 0x2029), (0x202F, 0x202F), (0x205F, 0x205F), (0x3000, 0x3000)]

/-- Whether `c` has property `White_Space`. -/
def isWhiteSpace (c : Char) : Bool :=
  CodeRange.covers whiteSpaceRanges c.val.toNat

theorem ascending_whiteSpaceRanges : CodeRange.Ascending whiteSpaceRanges := by
  decide +kernel

end Unicode
end JavaUnit
