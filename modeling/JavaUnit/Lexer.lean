import JavaUnit.Reference

/-!
# What a character is

The lexer reads source text one character at a time and says what each is: a brace in code,
plain text of some region, or part of a type reference.  Braces inside literals and comments
are plain text.

```text
normal ──'/'──▶ slash ──'/'──▶ lineComment ──newline──▶ normal
                  └────'*'──▶ blockComment ──'*'──▶ blockCommentStar ──'/'──▶ normal
normal ──quote──▶ literal ──'\'──▶ escaped ──any──▶ literal ──quote──▶ normal
```

Any text is legal.  A literal or comment that is never closed lasts to the end.

## References

The marks of a reference are recognised in every state.  Where the state waits for one more
character to decide something, a reference settles the matter: a slash before it was a
division, a star before it does not close the comment.
-/

namespace JavaUnit

/-- The two kinds of literal, told apart by their quote. -/
inductive Quote where
  | string
  | char
  deriving DecidableEq, Repr

/-- The character that opens and closes the literal. -/
def Quote.mark : Quote → Char
  | .string => '"'
  | .char => '\''

/-- The parts of source text in which a character can stand. -/
inductive Region where
  | code
  | literal
  | comment
  deriving DecidableEq, Repr

/-- What the lexer remembers of the text before. -/
inductive LexState where
  | normal
  /-- After a `/` in code, which may open a comment. -/
  | slash
  | lineComment
  | blockComment
  /-- After a `*` in a block comment, which may be about to close. -/
  | blockCommentStar
  | literal (quote : Quote)
  /-- After a backslash in a literal: the next character stands for itself. -/
  | escaped (quote : Quote)
  deriving DecidableEq, Repr

/-- What one character is. -/
inductive Event where
  | text (c : Char) (region : Region)
  | blockOpen
  | blockClose
  | referenceStart (region : Region)
  | referenceChar (c : Char)
  | referenceEnd
  deriving DecidableEq, Repr

namespace LexState

/-- The region that the next plain character stands in, if it opens or closes nothing. -/
def region : LexState → Region
  | normal | slash => .code
  | lineComment | blockComment | blockCommentStar => .comment
  | literal _ | escaped _ => .literal

/-- Reads a character that stands in code. -/
def readCode (c : Char) : Event × LexState :=
  match c with
  | '{' => (.blockOpen, normal)
  | '}' => (.blockClose, normal)
  | '/' => (.text c .code, slash)
  | '"' => (.text c .literal, literal .string)
  | '\'' => (.text c .literal, literal .char)
  | _ => (.text c .code, normal)

/-- Reads a character that is no mark of a reference. -/
def read (s : LexState) (c : Char) : Event × LexState :=
  match s with
  | normal => readCode c
  | slash =>
      match c with
      | '/' => (.text c .comment, lineComment)
      | '*' => (.text c .comment, blockComment)
      | _ => readCode c
  | lineComment =>
      if c = '\n' then (.text c .code, normal) else (.text c .comment, lineComment)
  | blockComment =>
      (.text c .comment, if c = '*' then blockCommentStar else blockComment)
  | blockCommentStar =>
      (.text c .comment,
        if c = '/' then normal else if c = '*' then blockCommentStar else blockComment)
  | literal quote =>
      (.text c .literal,
        if c = '\\' then escaped quote else if c = quote.mark then normal else literal quote)
  | escaped quote => (.text c .literal, literal quote)

/-- The state once it is known that a reference comes next. -/
def settle : LexState → LexState
  | slash => normal
  | blockCommentStar => blockComment
  | s => s

end LexState

/-- The lexical state, and whether the marks of a reference are open. -/
structure Lexer where
  state : LexState := .normal
  inReference : Bool := false
  deriving DecidableEq, Repr

namespace Lexer

/-- The region that the next plain character stands in. -/
def region (l : Lexer) : Region :=
  l.state.region

/-- Says what the next character is, and what to remember of it. -/
def classify (l : Lexer) (c : Char) : Event × Lexer :=
  if l.inReference then
    if c = Reference.endMark then (.referenceEnd, { l with inReference := false })
    else (.referenceChar c, l)
  else if c = Reference.startMark then
    (.referenceStart l.state.settle.region, ⟨l.state.settle, true⟩)
  else if c = Reference.endMark then (.referenceEnd, l)
  else ((l.state.read c).1, { l with state := (l.state.read c).2 })

/-- Between the marks everything up to the end mark belongs to the reference. -/
theorem classify_inReference (s : LexState) {c : Char} (h : c ≠ Reference.endMark) :
    classify ⟨s, true⟩ c = (.referenceChar c, ⟨s, true⟩) := by
  simp [classify, h]

@[simp] theorem classify_endMark (s : LexState) (inReference : Bool) :
    classify ⟨s, inReference⟩ Reference.endMark = (.referenceEnd, ⟨s, false⟩) := by
  cases inReference <;> rfl

@[simp] theorem classify_startMark (s : LexState) :
    classify ⟨s, false⟩ Reference.startMark =
      (.referenceStart s.settle.region, ⟨s.settle, true⟩) := rfl

/-- Outside of the marks a character is read by the lexical state. -/
theorem classify_plain (s : LexState) {c : Char} (hstart : c ≠ Reference.startMark)
    (hend : c ≠ Reference.endMark) :
    classify ⟨s, false⟩ c = ((s.read c).1, ⟨(s.read c).2, false⟩) := by
  simp [classify, hstart, hend]

/-- Settling a state does not move it to another region. -/
@[simp] theorem region_settle (s : LexState) : s.settle.region = s.region := by
  cases s <;> rfl

end Lexer
end JavaUnit
