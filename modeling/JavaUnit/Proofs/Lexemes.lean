import JavaUnit.Proofs.Lexing

/-!
# The lexical grammar

A text without references is a row of lexemes: line comments, block comments, string
literals, character literals, and single characters of code for everything else.  `lexemes`
cuts the text from left to right with the end of each lexeme said once and for all, where
the lexer goes character by character and remembers.

Both come to the same: `LexState.events_normal` reads the events of a text off its lexemes.
A brace counts if it is a lexeme of its own, so `openBraces` and `closeBraces` mention no
state of the lexer.

A lexeme that is never closed lasts to the end of the text.
-/

namespace JavaUnit

/-- A lexical unit of source text. -/
inductive Lexeme where
  /-- One character of code. -/
  | code (c : Char)
  /-- A comment that lasts to the end of its line, with the text after the two slashes. -/
  | lineComment (body : List Char)
  /-- A comment with an end of its own, which belongs to the text after the opening. -/
  | blockComment (body : List Char)
  /-- A literal with the text after its first quote, the last quote included. -/
  | literal (quote : Quote) (body : List Char)
  deriving DecidableEq, Repr

/-- Cuts behind the first end of a block comment. -/
def splitComment : List Char → List Char × List Char
  | [] => ([], [])
  | '*' :: '/' :: rest => (['*', '/'], rest)
  | c :: rest => (c :: (splitComment rest).1, (splitComment rest).2)

/-- Cuts behind the first quote that no backslash stands before.  A backslash takes the
character after it along, whatever that is. -/
def splitLiteral (quote : Quote) : List Char → List Char × List Char
  | [] => ([], [])
  | '\\' :: c :: rest =>
      ('\\' :: c :: (splitLiteral quote rest).1, (splitLiteral quote rest).2)
  | c :: rest =>
      if c = quote.mark then ([c], rest)
      else (c :: (splitLiteral quote rest).1, (splitLiteral quote rest).2)

theorem length_splitComment_le (cs : List Char) : (splitComment cs).2.length ≤ cs.length := by
  fun_induction splitComment cs with
  | case1 => exact Nat.le_refl _
  | case2 rest =>
      simp only [List.length_cons]
      omega
  | case3 c rest _ ih =>
      simp only [List.length_cons]
      omega

theorem length_splitLiteral_le (quote : Quote) (cs : List Char) :
    (splitLiteral quote cs).2.length ≤ cs.length := by
  fun_induction splitLiteral quote cs with
  | case1 => exact Nat.le_refl _
  | case2 c rest ih =>
      simp only [List.length_cons]
      omega
  | case3 rest _ =>
      simp only [List.length_cons]
      omega
  | case4 c rest _ _ ih =>
      simp only [List.length_cons]
      omega

/-- The lexemes of a text. -/
def lexemes : List Char → List Lexeme
  | [] => []
  | '/' :: '/' :: rest =>
      .lineComment (rest.takeWhile (· ≠ '\n')) :: lexemes (rest.dropWhile (· ≠ '\n'))
  | '/' :: '*' :: rest => .blockComment (splitComment rest).1 :: lexemes (splitComment rest).2
  | '"' :: rest =>
      .literal .string (splitLiteral .string rest).1 :: lexemes (splitLiteral .string rest).2
  | '\'' :: rest =>
      .literal .char (splitLiteral .char rest).1 :: lexemes (splitLiteral .char rest).2
  | c :: rest => .code c :: lexemes rest
termination_by cs => cs.length
decreasing_by
  · have := (List.dropWhile_sublist (l := rest) (· ≠ '\n')).length_le
    simp only [List.length_cons]
    omega
  · have := length_splitComment_le rest
    simp only [List.length_cons]
    omega
  · have := length_splitLiteral_le .string rest
    simp only [List.length_cons]
    omega
  · have := length_splitLiteral_le .char rest
    simp only [List.length_cons]
    omega
  · simp only [List.length_cons]
    omega

/-- The number of `{` in code. -/
def openBraces (cs : List Char) : Nat :=
  (lexemes cs).count (.code '{')

/-- The number of `}` in code. -/
def closeBraces (cs : List Char) : Nat :=
  (lexemes cs).count (.code '}')

/-! ## What the lexer says of a lexeme -/

/-- What the characters of the lexeme are.  The first slash of a comment is still code,
because nothing before it tells that a comment starts. -/
def Lexeme.events : Lexeme → List Event
  | code c => [if c = '{' then .blockOpen else if c = '}' then .blockClose else .text c .code]
  | lineComment body => .text '/' .code :: .text '/' .comment :: body.map (.text · .comment)
  | blockComment body => .text '/' .code :: .text '*' .comment :: body.map (.text · .comment)
  | literal quote body => .text quote.mark .literal :: body.map (.text · .literal)

namespace LexState

/-- A line comment lasts as long as the line. -/
theorem events_lineComment (cs : List Char) :
    lineComment.events cs =
      (cs.takeWhile (· ≠ '\n')).map (Event.text · .comment) ++
        normal.events (cs.dropWhile (· ≠ '\n')) := by
  induction cs with
  | nil => rfl
  | cons c cs ih =>
      by_cases hc : c = '\n'
      · -- the newline is code, for the comment's state as for any other
        subst hc
        rfl
      · have htake : (c :: cs).takeWhile (· ≠ '\n') = c :: cs.takeWhile (· ≠ '\n') := by
          simp [hc]
        have hdrop : (c :: cs).dropWhile (· ≠ '\n') = cs.dropWhile (· ≠ '\n') := by
          simp [hc]
        have hread : lineComment.read c = (.text c .comment, lineComment) := by
          simp [read, hc]
        rw [htake, hdrop, events_cons, hread, ih]
        rfl

/-- A star in a comment matters only if a slash comes next. -/
theorem events_blockCommentStar {cs : List Char} (h : ∀ rest, cs ≠ '/' :: rest) :
    blockCommentStar.events cs = blockComment.events cs := by
  cases cs with
  | nil => rfl
  | cons c rest =>
      have hc : c ≠ '/' := fun hc => h rest (hc ▸ rfl)
      have hread : blockCommentStar.read c = blockComment.read c := by
        simp [read, hc]
      rw [events_cons, hread, events_cons]

/-- A block comment lasts to its first end. -/
theorem events_blockComment (cs : List Char) :
    blockComment.events cs =
      (splitComment cs).1.map (Event.text · .comment) ++
        normal.events (splitComment cs).2 := by
  fun_induction splitComment cs with
  | case1 => rfl
  | case2 rest => rfl
  | case3 c rest hend ih =>
      rw [events_cons, List.map_cons, List.cons_append, ← ih]
      by_cases hc : c = '*'
      · have hrest : ∀ tail, rest ≠ '/' :: tail := fun tail htail => hend tail hc htail
        have hread : blockComment.read c = (.text c .comment, blockCommentStar) := by
          simp [read, hc]
        rw [hread, events_blockCommentStar hrest]
      · have hread : blockComment.read c = (.text c .comment, blockComment) := by
          simp [read, hc]
        rw [hread]

/-- A literal lasts to its first quote that is not escaped. -/
theorem events_literal (quote : Quote) (cs : List Char) :
    (literal quote).events cs =
      (splitLiteral quote cs).1.map (Event.text · .literal) ++
        normal.events (splitLiteral quote cs).2 := by
  fun_induction splitLiteral quote cs with
  | case1 => rfl
  | case2 c rest ih =>
      rw [events_cons, List.map_cons, List.map_cons, List.cons_append, List.cons_append, ← ih]
      rfl
  | case3 rest hescape =>
      have hmark : quote.mark ≠ '\\' := by
        cases quote <;> decide
      have hread : (literal quote).read quote.mark = (.text quote.mark .literal, normal) := by
        simp [read, hmark]
      rw [events_cons, hread]
      rfl
  | case4 c rest hescape hc ih =>
      rw [events_cons, List.map_cons, List.cons_append, ← ih]
      by_cases hslash : c = '\\'
      · -- a backslash at the very end of the text escapes nothing
        cases rest with
        | nil => simp [read]
        | cons d rest => exact absurd rfl (hescape d rest hslash)
      · have hread : (literal quote).read c = (.text c .literal, literal quote) := by
          simp [read, hslash, hc]
        rw [hread]

/-- After a slash that opens no comment the text goes on as if it stood alone. -/
theorem events_slash {cs : List Char} (hline : ∀ rest, cs ≠ '/' :: rest)
    (hblock : ∀ rest, cs ≠ '*' :: rest) : slash.events cs = normal.events cs := by
  cases cs with
  | nil => rfl
  | cons c rest =>
      have hslash : c ≠ '/' := fun hc => hline rest (hc ▸ rfl)
      have hstar : c ≠ '*' := fun hc => hblock rest (hc ▸ rfl)
      rw [events_cons, read_slash hslash hstar, events_cons]

/-- A character of code that opens no literal and is no slash stands for itself. -/
theorem readCode_of_ne {c : Char} (hslash : c ≠ '/') (hstring : c ≠ '"') (hchar : c ≠ '\'') :
    [(readCode c).1] = (Lexeme.code c).events ∧ (readCode c).2 = normal := by
  unfold readCode Lexeme.events
  split <;> simp_all

/-- **The lexer reads a text by its lexemes.**  The induction is on the lexemes: one that is
opened is read to its end in a state of its own, and the rest of the text is read as a text
by itself. -/
theorem events_normal (cs : List Char) :
    normal.events cs = (lexemes cs).flatMap Lexeme.events := by
  fun_induction lexemes cs with
  | case1 => rfl
  | case2 rest ih =>
      rw [List.flatMap_cons, ← ih, Lexeme.events, List.cons_append, List.cons_append,
        ← events_lineComment]
      rfl
  | case3 rest ih =>
      rw [List.flatMap_cons, ← ih, Lexeme.events, List.cons_append, List.cons_append,
        ← events_blockComment]
      rfl
  | case4 rest ih =>
      rw [List.flatMap_cons, ← ih, Lexeme.events, List.cons_append, ← events_literal]
      rfl
  | case5 rest ih =>
      rw [List.flatMap_cons, ← ih, Lexeme.events, List.cons_append, ← events_literal]
      rfl
  | case6 c rest hline hblock hstring hchar ih =>
      rw [List.flatMap_cons, ← ih]
      by_cases hc : c = '/'
      · have hnoLine : ∀ tail, rest ≠ '/' :: tail := fun tail htail => hline tail hc htail
        have hnoBlock : ∀ tail, rest ≠ '*' :: tail := fun tail htail => hblock tail hc htail
        rw [← events_slash hnoLine hnoBlock, hc]
        rfl
      · obtain ⟨hevent, hstate⟩ := readCode_of_ne hc hstring hchar
        rw [← hevent, events_cons]
        change (readCode c).1 :: (readCode c).2.events rest = _
        rw [hstate]
        rfl

end LexState

/-! ## Counting braces -/

/-- Only the lexeme `{` opens a block. -/
theorem opens_events (l : Lexeme) :
    Event.opens l.events = if l = .code '{' then 1 else 0 := by
  cases l with
  | code c =>
      simp only [Lexeme.events, Event.opens_singleton, Lexeme.code.injEq]
      by_cases hc : c = '{' <;> by_cases hc' : c = '}' <;> simp [hc, hc']
  | lineComment body => simp [Lexeme.events, Event.opens, List.count_eq_zero]
  | blockComment body => simp [Lexeme.events, Event.opens, List.count_eq_zero]
  | literal quote body =>
      simp [Lexeme.events, Event.opens, List.count_eq_zero]

/-- Only the lexeme `}` closes a block. -/
theorem closes_events (l : Lexeme) :
    Event.closes l.events = if l = .code '}' then 1 else 0 := by
  cases l with
  | code c =>
      simp only [Lexeme.events, Event.closes_singleton, Lexeme.code.injEq]
      by_cases hc : c = '{' <;> by_cases hc' : c = '}' <;> simp [hc, hc']
  | lineComment body => simp [Lexeme.events, Event.closes, List.count_eq_zero]
  | blockComment body => simp [Lexeme.events, Event.closes, List.count_eq_zero]
  | literal quote body =>
      simp [Lexeme.events, Event.closes, List.count_eq_zero]

/-- The events of a text open a block for each `{` in code. -/
theorem opens_normal (cs : List Char) :
    Event.opens (LexState.normal.events cs) = openBraces cs := by
  rw [LexState.events_normal, openBraces]
  induction lexemes cs with
  | nil => rfl
  | cons l ls ih =>
      rw [List.flatMap_cons, Event.opens_append, ih, opens_events, List.count_cons]
      simp only [beq_iff_eq]
      exact Nat.add_comm _ _

/-- The events of a text close a block for each `}` in code. -/
theorem closes_normal (cs : List Char) :
    Event.closes (LexState.normal.events cs) = closeBraces cs := by
  rw [LexState.events_normal, closeBraces]
  induction lexemes cs with
  | nil => rfl
  | cons l ls ih =>
      rw [List.flatMap_cons, Event.closes_append, ih, closes_events, List.count_cons]
      simp only [beq_iff_eq]
      exact Nat.add_comm _ _

end JavaUnit
