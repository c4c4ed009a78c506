import JavaUnit.Unicode.WhiteSpace
import JavaUnit.Words

/-!
# The header before a block

Whether a `{` opens the body of a type shows in the code before it: a keyword such as
`class`, then a name, then anything but `;`, `{` or `}`.  The header watches the words of
the code go by and keeps what it needs to name the next block.

Three things keep it from seeing declarations where there are none.  A word after a dot does
not count, so `Widget.class` is a class literal.  The name has to follow its keyword
directly, so in `record = next` the word `record` is a variable.  And words end wherever a
literal, a comment or a reference comes between.
-/

namespace JavaUnit

open Unicode

/-- How far a declaration has come. -/
inductive Pending where
  | nothing
  /-- A declaration keyword was read; its name is to follow. -/
  | keyword
  /-- Keyword and name were read; the body is to follow. -/
  | named (name : String)
  deriving DecidableEq, Repr

/-- What the code read so far says about the next block. -/
structure Header where
  /-- The word in progress. -/
  word : String := ""
  /-- Whether the word in progress, if any, follows a dot. -/
  afterDot : Bool := false
  /-- The last character of code that is no white space. -/
  lastCode? : Option Char := none
  pending : Pending := .nothing
  deriving DecidableEq, Repr

namespace Header

/-- Ends the word in progress and lets it count, unless it follows a dot. -/
def endWord (h : Header) : Header :=
  if h.word = "" then h
  else if h.afterDot then { h with word := "" }
  else if isDeclarationKeyword h.word then { h with word := "", pending := .keyword }
  else if h.pending = .keyword then
    { h with
      word := ""
      pending := if isIdentifier h.word then .named h.word else .nothing }
  else { h with word := "" }

/-- Whether `c` belongs to the word in progress, or starts one if there is none. -/
def continues (h : Header) (c : Char) : Bool :=
  if h.word = "" then isIdentifierStart c else isIdentifierPart c

/-- Whether `c` between words puts an end to the declaration in progress.  White space may
stand between keyword and name, and so may a comment, which starts with a slash. -/
def cancels (h : Header) (c : Char) : Bool :=
  c == ';' || (h.pending = .keyword && !isWhiteSpace c && c != '/')

/-- Takes note of a character of code that is no brace. -/
def read (h : Header) (c : Char) : Header :=
  let next :=
    if h.continues c then
      { h with
        word := h.word.push c
        afterDot := if h.word = "" then h.lastCode? == some '.' else h.afterDot }
    else
      let ended := h.endWord
      if ended.cancels c then { ended with pending := .nothing } else ended
  if isWhiteSpace c then next else { next with lastCode? := some c }

/-- Takes note of a reference that is spelled `spelling`.  A simple name counts as a word of
its own; a dotted name does not. -/
def readSpelling (h : Header) (spelling : String) : Header :=
  let ended := h.endWord
  let counted :=
    if isIdentifier spelling then
      endWord { ended with word := spelling, afterDot := ended.lastCode? == some '.' }
    else ended
  { counted with lastCode? := spelling.toList.getLast?.or counted.lastCode? }

/-- Takes note of something that is no code. -/
def interrupt (h : Header) : Header :=
  h.endWord

/-- The name of the type whose body a `{` opens here, if there is one, and what to remember
inside the block. -/
def openBlock (h : Header) : Option String × Header :=
  let ended := h.endWord
  let name? := match ended.pending with
    | .named name => some name
    | _ => none
  (name?, { ended with lastCode? := some '{', pending := .nothing })

/-- Takes note of a `}` in code. -/
def closeBlock (h : Header) : Header :=
  { h.endWord with lastCode? := some '}', pending := .nothing }

@[simp] theorem word_endWord (h : Header) : h.endWord.word = "" := by
  unfold endWord
  split
  · assumption
  · split
    · rfl
    · split
      · rfl
      · split <;> rfl

@[simp] theorem endWord_endWord (h : Header) : h.endWord.endWord = h.endWord := by
  simp [endWord.eq_1 h.endWord]

end Header
end JavaUnit
