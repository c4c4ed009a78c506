import JavaUnit.Proofs.Enclosures
import JavaUnit.Proofs.Lexemes
import Mathlib.Data.List.Induction

/-!
# The lexer and its grammar

A grammar says of a text as a whole what its lexemes are.  `Cuts cs ls s` is that grammar: from
where code starts, the text `cs` is the row of lexemes `ls`.  A comment or a literal is told by its
opening and by its first end, and only if nothing opens here a character stands for itself.  A
lexeme that the text breaks off in is `Unfinished`, and the state `s` tells which it is and how far
it came; if there is none, `s` is `normal`.

The grammar looks ahead and the lexer does not, and the lexer remembers where the grammar has
nothing to remember.  That they agree has three parts.  Every text is cut (`exists_cuts`).  What it
is cut into is what `lexemes` computes, so no text is cut in two ways (`Cuts.lexemes_eq`).  And the
lexer ends in the state that the cut ends in (`Cuts.after_eq`).  What the lexer says of each
character was read off the lexemes before (`LexState.events_normal`).
-/

namespace JavaUnit

/-! ## The grammar -/

/-- The characters of the lexeme. -/
def Lexeme.chars : Lexeme → List Char
  | code c => [c]
  | lineComment body => '/' :: '/' :: body
  | blockComment body => '/' :: '*' :: body
  | literal quote body => quote.mark :: body

/-- A lexeme that the text ends in before it has ended itself, with its characters and the state
that tells it. -/
inductive Unfinished : Lexeme → List Char → LexState → Prop where
  /-- A comment may have opened. -/
  | slash : Unfinished (.code '/') ['/'] .slash
  | lineComment {line : List Char} (hline : '\n' ∉ line) :
      Unfinished (.lineComment line) ('/' :: '/' :: line) .lineComment
  | blockComment {inner : List Char} (hinner : ¬ ['*', '/'] <:+: inner)
      (hstar : inner.getLast? ≠ some '*') :
      Unfinished (.blockComment inner) ('/' :: '*' :: inner) .blockComment
  /-- The end of the comment may have begun. -/
  | blockCommentStar {inner : List Char} (hinner : ¬ ['*', '/'] <:+: inner)
      (hstar : inner.getLast? = some '*') :
      Unfinished (.blockComment inner) ('/' :: '*' :: inner) .blockCommentStar
  | literal {quote : Quote} {inner : List Char} (hinner : Quoted quote inner) :
      Unfinished (.literal quote inner) (quote.mark :: inner) (.literal quote)
  /-- The backslash waits for its character. -/
  | escaped {quote : Quote} {inner : List Char} (hinner : Quoted quote inner) :
      Unfinished (.literal quote (inner ++ ['\\'])) (quote.mark :: (inner ++ ['\\']))
        (.escaped quote)

/-- From a place in code the text is this row of lexemes, and it ends in this state. -/
inductive Cuts : List Char → List Lexeme → LexState → Prop where
  | nil : Cuts [] [] .normal
  | unfinished {l : Lexeme} {cs : List Char} {s : LexState} (h : Unfinished l cs s) :
      Cuts cs [l] s
  | code {c : Char} {rest : List Char} {ls : List Lexeme} {s : LexState} (hslash : c ≠ '/')
      (hquote : ∀ quote : Quote, c ≠ quote.mark) (h : Cuts rest ls s) :
      Cuts (c :: rest) (.code c :: ls) s
  /-- A slash that no comment starts with. -/
  | division {d : Char} {rest : List Char} {ls : List Lexeme} {s : LexState} (hslash : d ≠ '/')
      (hstar : d ≠ '*') (h : Cuts (d :: rest) ls s) :
      Cuts ('/' :: d :: rest) (.code '/' :: ls) s
  /-- The newline is no part of the comment. -/
  | lineComment {line rest : List Char} {ls : List Lexeme} {s : LexState} (hline : '\n' ∉ line)
      (h : Cuts ('\n' :: rest) ls s) :
      Cuts ('/' :: '/' :: (line ++ '\n' :: rest)) (.lineComment line :: ls) s
  | blockComment {inner rest : List Char} {ls : List Lexeme} {s : LexState}
      (hinner : ¬ ['*', '/'] <:+: inner) (h : Cuts rest ls s) :
      Cuts ('/' :: '*' :: (inner ++ '*' :: '/' :: rest))
        (.blockComment (inner ++ ['*', '/']) :: ls) s
  | literal {quote : Quote} {inner rest : List Char} {ls : List Lexeme} {s : LexState}
      (hinner : Quoted quote inner) (h : Cuts rest ls s) :
      Cuts (quote.mark :: (inner ++ quote.mark :: rest))
        (.literal quote (inner ++ [quote.mark]) :: ls) s

theorem Quote.mark_ne_backslash (quote : Quote) : quote.mark ≠ '\\' := by
  cases quote <;> decide

variable {cs inner line rest : List Char} {ls : List Lexeme} {s : LexState} {quote : Quote}

/-- Cutting loses nothing. -/
theorem Cuts.flatMap_chars (h : Cuts cs ls s) : ls.flatMap Lexeme.chars = cs := by
  induction h with
  | nil => rfl
  | unfinished h => cases h <;> simp [Lexeme.chars]
  | code hslash hquote h ih => rw [List.flatMap_cons, ih]; rfl
  | division hslash hstar h ih => rw [List.flatMap_cons, ih]; rfl
  | lineComment hline h ih => rw [List.flatMap_cons, ih]; rfl
  | blockComment hinner h ih => rw [List.flatMap_cons, ih]; simp [Lexeme.chars]
  | literal hinner h ih => rw [List.flatMap_cons, ih]; simp [Lexeme.chars]

/-! ## The first end -/

/-- Without an end in sight all is comment. -/
theorem splitComment_of_not_infix (h : ¬ ['*', '/'] <:+: cs) : splitComment cs = (cs, []) := by
  fun_induction splitComment cs with
  | case1 => rfl
  | case2 rest => exact absurd (List.prefix_append ['*', '/'] rest).isInfix h
  | case3 c rest hend ih =>
      rw [ih fun hrest => h (hrest.trans (List.suffix_cons c rest).isInfix)]

theorem splitComment_append (h : ¬ ['*', '/'] <:+: inner) (rest : List Char) :
    splitComment (inner ++ '*' :: '/' :: rest) = (inner ++ ['*', '/'], rest) := by
  induction inner with
  | nil => rfl
  | cons c inner ih =>
      have htail := ih fun hearly => h (hearly.trans (List.suffix_cons c inner).isInfix)
      have hopen : ∀ tail, c = '*' → inner ++ '*' :: '/' :: rest ≠ '/' :: tail := by
        rintro tail rfl heq
        cases inner with
        | nil => exact absurd heq (by simp)
        | cons d inner =>
            obtain ⟨rfl, -⟩ := List.cons_eq_cons.1 heq
            exact h (List.prefix_append ['*', '/'] inner).isInfix
      rw [List.cons_append, splitComment.eq_3 _ _ hopen, htail]
      rfl

/-- Either no end is in sight, or there is a first one. -/
theorem splitComment_cases (cs : List Char) :
    (¬ ['*', '/'] <:+: cs) ∨
      ∃ inner rest, cs = inner ++ '*' :: '/' :: rest ∧ ¬ ['*', '/'] <:+: inner := by
  have hnot {c : Char} {cs : List Char} (hfirst : ∀ tail, c = '*' → cs ≠ '/' :: tail)
      (hrest : ¬ ['*', '/'] <:+: cs) : ¬ ['*', '/'] <:+: c :: cs := by
    intro hinfix
    rcases List.infix_cons_iff.1 hinfix with ⟨tail, hprefix⟩ | hinfix
    · obtain ⟨rfl, rfl⟩ := List.cons_eq_cons.1 hprefix
      exact hfirst tail rfl rfl
    · exact hrest hinfix
  fun_induction splitComment cs with
  | case1 => exact .inl (by simp)
  | case2 rest => exact .inr ⟨[], rest, rfl, by simp⟩
  | case3 c rest hend ih =>
      rcases ih with hrest | ⟨inner, tail, rfl, hinner⟩
      · exact .inl (hnot (fun tail hc htail => hend tail hc htail) hrest)
      · refine .inr ⟨c :: inner, tail, rfl, hnot (fun tail' hc htail => ?_) hinner⟩
        exact hend _ hc (by rw [htail, List.cons_append])

/-- A literal goes on behind characters that do not end it. -/
theorem splitLiteral_append (h : Quoted quote inner) (cs : List Char) :
    splitLiteral quote (inner ++ cs) =
      (inner ++ (splitLiteral quote cs).1, (splitLiteral quote cs).2) := by
  induction h with
  | nil => rfl
  | @plain c inner hmark hescape h ih =>
      have hplain : ∀ (d : Char) tail, c = '\\' → inner ++ cs ≠ d :: tail := by
        intro d tail hc
        exact absurd hc hescape
      rw [List.cons_append, splitLiteral.eq_3 _ _ _ hplain, if_neg hmark, ih]
      rfl
  | escaped h ih =>
      rw [List.cons_append, List.cons_append, splitLiteral, ih]
      rfl

theorem splitLiteral_mark (quote : Quote) (rest : List Char) :
    splitLiteral quote (quote.mark :: rest) = ([quote.mark], rest) := by
  have hplain : ∀ (d : Char) tail, quote.mark = '\\' → rest ≠ d :: tail := by
    intro d tail hmark
    exact absurd hmark quote.mark_ne_backslash
  rw [splitLiteral.eq_3 _ _ _ hplain, if_pos rfl]

theorem splitLiteral_backslash (quote : Quote) : splitLiteral quote ['\\'] = (['\\'], []) := by
  have hplain : ∀ (d : Char) tail, '\\' = '\\' → [] ≠ d :: tail := by
    intro d tail _
    exact (List.cons_ne_nil d tail).symm
  rw [splitLiteral.eq_3 _ _ _ hplain, if_neg quote.mark_ne_backslash.symm, splitLiteral]

/-- A literal has no end, or breaks off behind a backslash, or there is a first end. -/
theorem splitLiteral_cases (quote : Quote) (cs : List Char) :
    Quoted quote cs ∨ (∃ inner, cs = inner ++ ['\\'] ∧ Quoted quote inner) ∨
      ∃ inner rest, cs = inner ++ quote.mark :: rest ∧ Quoted quote inner := by
  fun_induction splitLiteral quote cs with
  | case1 => exact .inl .nil
  | case2 c rest ih =>
      rcases ih with hrest | ⟨inner, rfl, hinner⟩ | ⟨inner, tail, rfl, hinner⟩
      · exact .inl hrest.escaped
      · exact .inr (.inl ⟨_, rfl, hinner.escaped⟩)
      · exact .inr (.inr ⟨_, _, rfl, hinner.escaped⟩)
  | case3 rest _ => exact .inr (.inr ⟨[], rest, rfl, .nil⟩)
  | case4 c rest hescape hc ih =>
      by_cases hslash : c = '\\'
      · cases rest with
        | nil => exact .inr (.inl ⟨[], by rw [hslash]; rfl, .nil⟩)
        | cons d rest => exact absurd rfl (hescape d rest hslash)
      · rcases ih with hrest | ⟨inner, rfl, hinner⟩ | ⟨inner, tail, rfl, hinner⟩
        · exact .inl (hrest.plain hc hslash)
        · exact .inr (.inl ⟨_, rfl, hinner.plain hc hslash⟩)
        · exact .inr (.inr ⟨_, _, rfl, hinner.plain hc hslash⟩)

/-! ## Every text is cut in one way -/

theorem lexemes_lineComment (rest : List Char) :
    lexemes ('/' :: '/' :: rest) =
      .lineComment (rest.takeWhile (· ≠ '\n')) :: lexemes (rest.dropWhile (· ≠ '\n')) := by
  rw [lexemes]

theorem lexemes_blockComment (rest : List Char) :
    lexemes ('/' :: '*' :: rest) =
      .blockComment (splitComment rest).1 :: lexemes (splitComment rest).2 := by
  rw [lexemes]

theorem lexemes_literal (quote : Quote) (rest : List Char) :
    lexemes (quote.mark :: rest) =
      .literal quote (splitLiteral quote rest).1 :: lexemes (splitLiteral quote rest).2 := by
  cases quote <;> rw [Quote.mark, lexemes]

theorem lexemes_code {c : Char} (hslash : c ≠ '/') (hquote : ∀ quote : Quote, c ≠ quote.mark)
    (rest : List Char) : lexemes (c :: rest) = .code c :: lexemes rest := by
  rw [lexemes]
  · exact fun _ hc => absurd hc hslash
  · exact fun _ hc => absurd hc hslash
  · exact hquote .string
  · exact hquote .char

theorem lexemes_division {d : Char} (hslash : d ≠ '/') (hstar : d ≠ '*') (rest : List Char) :
    lexemes ('/' :: d :: rest) = .code '/' :: lexemes (d :: rest) := by
  rw [lexemes]
  · simpa using hslash
  · simpa using hstar
  · decide
  · decide

/-- **What a text is cut into is what `lexemes` computes.** -/
theorem Cuts.lexemes_eq (h : Cuts cs ls s) : lexemes cs = ls := by
  induction h with
  | nil => rw [lexemes]
  | unfinished h =>
      cases h with
      | slash => decide +kernel
      | lineComment hline =>
          rw [lexemes_lineComment, List.takeWhile_eq_self_iff.2 (Text.ne_of_mem_before hline),
            List.dropWhile_eq_nil_iff.2 (Text.ne_of_mem_before hline), lexemes]
      | blockComment hinner hstar =>
          rw [lexemes_blockComment, splitComment_of_not_infix hinner, lexemes]
      | blockCommentStar hinner hstar =>
          rw [lexemes_blockComment, splitComment_of_not_infix hinner, lexemes]
      | literal hinner =>
          have hsplit := splitLiteral_append hinner []
          rw [List.append_nil, splitLiteral, List.append_nil] at hsplit
          rw [lexemes_literal, hsplit, lexemes]
      | escaped hinner =>
          rw [lexemes_literal, splitLiteral_append hinner, splitLiteral_backslash, lexemes]
  | code hslash hquote h ih => rw [lexemes_code hslash hquote, ih]
  | division hslash hstar h ih => rw [lexemes_division hslash hstar, ih]
  | lineComment hline h ih =>
      rw [lexemes_lineComment, List.takeWhile_append_of_pos (Text.ne_of_mem_before hline),
        List.dropWhile_append_of_pos (Text.ne_of_mem_before hline)]
      simp [ih]
  | blockComment hinner h ih => rw [lexemes_blockComment, splitComment_append hinner, ih]
  | literal hinner h ih =>
      rw [lexemes_literal, splitLiteral_append hinner, splitLiteral_mark, ih]

/-- **Every text is cut.**  What opens at its start leaves a rest that is shorter. -/
theorem exists_cuts (cs : List Char) : ∃ ls s, Cuts cs ls s := by
  induction hlength : cs.length using Nat.strongRecOn generalizing cs with
  | ind n ih =>
      subst hlength
      have hshorter (rest : List Char) (h : rest.length < cs.length) : ∃ ls s, Cuts rest ls s :=
        ih rest.length h rest rfl
      cases cs with
      | nil => exact ⟨_, _, .nil⟩
      | cons c rest =>
          by_cases hquote : ∃ quote : Quote, c = quote.mark
          · obtain ⟨quote, rfl⟩ := hquote
            rcases splitLiteral_cases quote rest with hopen | ⟨inner, rfl, hinner⟩ |
              ⟨inner, tail, rfl, hinner⟩
            · exact ⟨_, _, .unfinished (.literal hopen)⟩
            · exact ⟨_, _, .unfinished (.escaped hinner)⟩
            · obtain ⟨ls, s, htail⟩ := hshorter tail (by simp; omega)
              exact ⟨_, _, .literal hinner htail⟩
          · by_cases hslash : c = '/'
            · subst hslash
              cases rest with
              | nil => exact ⟨_, _, .unfinished .slash⟩
              | cons d rest =>
                  by_cases hline : d = '/'
                  · subst hline
                    by_cases hnewline : '\n' ∈ rest
                    · obtain ⟨line, tail, rfl, hfirst⟩ := List.eq_append_cons_of_mem hnewline
                      obtain ⟨ls, s, htail⟩ := hshorter ('\n' :: tail) (by simp; omega)
                      exact ⟨_, _, .lineComment hfirst htail⟩
                    · exact ⟨_, _, .unfinished (.lineComment hnewline)⟩
                  · by_cases hblock : d = '*'
                    · subst hblock
                      rcases splitComment_cases rest with hopen | ⟨inner, tail, rfl, hinner⟩
                      · by_cases hstar : rest.getLast? = some '*'
                        · exact ⟨_, _, .unfinished (.blockCommentStar hopen hstar)⟩
                        · exact ⟨_, _, .unfinished (.blockComment hopen hstar)⟩
                      · obtain ⟨ls, s, htail⟩ := hshorter tail (by simp; omega)
                        exact ⟨_, _, .blockComment hinner htail⟩
                    · obtain ⟨ls, s, hrest⟩ := hshorter (d :: rest) (by simp)
                      exact ⟨_, _, .division hline hblock hrest⟩
            · obtain ⟨ls, s, hrest⟩ := hshorter rest (by simp)
              exact ⟨_, _, .code hslash (fun quote hc => hquote ⟨quote, hc⟩) hrest⟩

/-! ## The state that a text ends in -/

namespace LexState

/-- A quote opens a literal. -/
theorem read_mark (quote : Quote) : (normal.read quote.mark).2 = .literal quote := by
  cases quote <;> rfl

theorem Reads.after_eq {region : Region} {s t : LexState} (h : Reads region s cs t) :
    s.after cs = t := by
  induction h with
  | nil s => rfl
  | cons hread h ih => rw [after_cons, hread, ih]

/-- In a literal all is read that does not end it. -/
theorem after_quoted (h : Quoted quote cs) : (literal quote).after cs = literal quote := by
  induction h with
  | nil => rfl
  | plain hmark hescape h ih => simpa [read, hmark, hescape] using ih
  | escaped h ih => exact ih

/-- In a comment that has not ended, only a star at the end can be the beginning of one.  The
induction is from the end, as the state tells no more than the last character. -/
theorem after_of_not_infix (h : ¬ ['*', '/'] <:+: cs) :
    blockComment.after cs = if cs.getLast? = some '*' then blockCommentStar else blockComment := by
  induction cs using List.reverseRecOn with
  | nil => rfl
  | append_singleton cs c ih =>
      have hcs : ¬ ['*', '/'] <:+: cs := by
        intro hearly
        exact h (hearly.trans (List.prefix_append cs [c]).isInfix)
      rw [after_append, ih hcs, List.getLast?_concat, after_cons, after_nil]
      by_cases hstar : cs.getLast? = some '*'
      · have hslash : c ≠ '/' := by
          rintro rfl
          obtain ⟨init, rfl⟩ := List.getLast?_eq_some_iff.1 hstar
          exact h ⟨init, [], by simp⟩
        simp [hstar, read, hslash]
      · simp [hstar, read]

end LexState

theorem Unfinished.after_eq {l : Lexeme} (h : Unfinished l cs s) :
    LexState.normal.after cs = s := by
  cases h with
  | slash => rfl
  | lineComment hline => exact (LexState.reads_lineComment hline).after_eq
  | @blockComment inner hinner hstar =>
      have hafter := LexState.after_of_not_infix hinner
      rwa [if_neg hstar] at hafter
  | @blockCommentStar inner hinner hstar =>
      have hafter := LexState.after_of_not_infix hinner
      rwa [if_pos hstar] at hafter
  | @literal quote inner hinner =>
      rw [LexState.after_cons, LexState.read_mark, LexState.after_quoted hinner]
  | @escaped quote inner hinner =>
      rw [LexState.after_cons, LexState.read_mark, LexState.after_append,
        LexState.after_quoted hinner]
      rfl

/-- **The lexer ends in the state that the cut ends in.** -/
theorem Cuts.after_eq (h : Cuts cs ls s) : LexState.normal.after cs = s := by
  induction h with
  | nil => rfl
  | unfinished h => exact h.after_eq
  | @code c rest ls s hslash hquote h ih =>
      have hread := (LexState.readCode_of_ne hslash (hquote .string) (hquote .char)).2
      rw [LexState.after_cons, LexState.read, hread, ih]
  | @division d rest ls s hslash hstar h ih =>
      rw [LexState.after_cons] at ih ⊢
      show ((LexState.slash.read d).2).after rest = s
      rw [LexState.read_slash hslash hstar, ih]
  | @lineComment line rest ls s hline h ih =>
      show LexState.lineComment.after (line ++ '\n' :: rest) = s
      rw [LexState.after_append, (LexState.reads_lineComment hline).after_eq]
      exact ih
  | @blockComment inner rest ls s hinner h ih =>
      have hsplit : inner ++ '*' :: '/' :: rest = (inner ++ ['*', '/']) ++ rest := by simp
      show LexState.blockComment.after (inner ++ '*' :: '/' :: rest) = s
      rw [hsplit, LexState.after_append, (LexState.reads_blockComment hinner).1.after_eq, ih]
  | @literal quote inner rest ls s hinner h ih =>
      have hsplit : inner ++ quote.mark :: rest = (inner ++ [quote.mark]) ++ rest := by simp
      rw [LexState.after_cons, LexState.read_mark, hsplit, LexState.after_append,
        (LexState.reads_literal hinner).after_eq, ih]

/-- **The lexer implements the grammar.**  A text without references is cut into lexemes in exactly
one way.  Read from the start, each of its characters is what its lexeme says of it, and the lexer
ends in the state that tells the lexeme in which the text breaks off. -/
theorem Lexer.reads_by_grammar (h : MarkFree cs) :
    ∃ ls s, Cuts cs ls s ∧ (∀ ls' s', Cuts cs ls' s' → ls' = ls ∧ s' = s) ∧
      ls.flatMap Lexeme.chars = cs ∧ Lexer.events {} cs = ls.flatMap Lexeme.events ∧
      Lexer.after {} cs = ⟨s, false⟩ := by
  obtain ⟨ls, s, hcuts⟩ := exists_cuts cs
  refine ⟨ls, s, hcuts, fun ls' s' hother => ?_, hcuts.flatMap_chars, ?_, ?_⟩
  · exact ⟨hother.lexemes_eq.symm.trans hcuts.lexemes_eq, hother.after_eq.symm.trans hcuts.after_eq⟩
  · show Lexer.events ⟨.normal, false⟩ cs = _
    rw [Lexer.events_of_markFree h, LexState.events_normal, hcuts.lexemes_eq]
  · show Lexer.after ⟨.normal, false⟩ cs = _
    rw [Lexer.after_of_markFree h, hcuts.after_eq]

/-- A quote that is escaped, a comment that a star and a slash only seem to close at once, and at
the end a literal that breaks off behind a backslash: of the three braces one opens a block. -/
theorem Lexer.reads_by_grammar_escaped :
    ∃ cs ls, cs = "a/'\\''/*/\x7b*/\x7b\"\x7d\\".toList ∧ MarkFree cs ∧
      ls = [.code 'a', .code '/', .literal .char ['\\', '\'', '\''],
        .blockComment ['/', '{', '*', '/'], .code '{', .literal .string ['}', '\\']] ∧
      Cuts cs ls (.escaped .string) ∧ Lexer.events {} cs = ls.flatMap Lexeme.events ∧
      Lexer.after {} cs = ⟨.escaped .string, false⟩ := by
  let cs := "a/'\\''/*/\x7b*/\x7b\"\x7d\\".toList
  let ls : List Lexeme := [.code 'a', .code '/', .literal .char ['\\', '\'', '\''],
    .blockComment ['/', '{', '*', '/'], .code '{', .literal .string ['}', '\\']]
  have hfree : MarkFree cs := by decide +kernel
  have hopen : Cuts ['"', '}', '\\'] [.literal .string ['}', '\\']] (.escaped .string) :=
    .unfinished (.escaped (.plain (by decide) (by decide) .nil))
  have hcomment : ¬ ['*', '/'] <:+: ['/', '{'] := by decide
  have hquoted : Quoted .char ['\\', '\''] := .escaped .nil
  have hletter : ∀ quote : Quote, 'a' ≠ quote.mark := by
    intro quote
    cases quote <;> decide
  have hbrace : ∀ quote : Quote, '{' ≠ quote.mark := by
    intro quote
    cases quote <;> decide
  have hcut : Cuts cs ls (.escaped .string) :=
    .code (by decide) hletter (.division (by decide) (by decide) (.literal hquoted
      (.blockComment hcomment (.code (by decide) hbrace hopen))))
  obtain ⟨ls', s', -, hunique, -, hevents, hafter⟩ := Lexer.reads_by_grammar hfree
  obtain ⟨rfl, rfl⟩ := hunique ls _ hcut
  exact ⟨cs, ls, rfl, hfree, rfl, hcut, hevents, hafter⟩

end JavaUnit
