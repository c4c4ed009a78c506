import JavaUnit.Unicode.WhiteSpace

/-!
# Trimming

Text as a list of characters, with the white space at its ends taken away.  White space
is the Unicode property, so a no-break space goes too.
-/

namespace JavaUnit
namespace Text

open Unicode

/-- The text without the white space it starts with. -/
def trimStart (cs : List Char) : List Char :=
  cs.dropWhile isWhiteSpace

/-- The text without the white space it ends with. -/
def trimEnd (cs : List Char) : List Char :=
  (trimStart cs.reverse).reverse

/-- The text without the white space at either end. -/
def trim (cs : List Char) : List Char :=
  trimEnd (trimStart cs)

@[simp] theorem trimStart_nil : trimStart [] = [] := rfl

@[simp] theorem trimEnd_nil : trimEnd [] = [] := rfl

@[simp] theorem trim_nil : trim [] = [] := rfl

/-- A text that starts with something else than white space keeps its start. -/
theorem trimStart_cons_of_not {c : Char} {cs : List Char} (h : isWhiteSpace c = false) :
    trimStart (c :: cs) = c :: cs := by
  simp [trimStart, h]

/-- White space at the front goes. -/
theorem trimStart_cons_of {c : Char} {cs : List Char} (h : isWhiteSpace c = true) :
    trimStart (c :: cs) = trimStart cs := by
  simp [trimStart, h]

end Text
end JavaUnit
