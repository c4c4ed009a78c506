import JavaUnit.Proofs.Runs
import JavaUnit.Proofs.TextBefore

/-!
# What stands in comments and literals does not matter

A comment or a literal can hold braces, keywords and quotes, and none of them counts.  Here such a
text is an `Enclosure`, and `Enclosure.Spans` says which texts are one from their opening to their
first end.  It does so without the lexer: a block comment ends with its first `*/`, a line comment
with its newline, a literal with its first quote that no backslash takes along.

From the opening on the lexer goes through states of its own, and comes out at the end whatever was
inside (`LexState.reads_blockComment` and the two beside it).  The draft writes what it is given,
and its header only learns that something was there which is no code (`Enclosure.headerAfter`).  So
all that is left of an enclosure is its text and its kind (`AtRest.appendList_spans`), and as a unit
does not look back at its text, two enclosures of one kind make no difference to anything that comes
after them (`alike_after_spans`).
-/

namespace JavaUnit

/-- The parts of source text that the structure of the code does not reach into. -/
inductive Enclosure where
  | lineComment
  | blockComment
  | literal (quote : Quote)
  deriving DecidableEq, Repr

/-- A text between two quotes, in which a quote stands after a backslash at most. -/
inductive Quoted (quote : Quote) : List Char → Prop where
  | nil : Quoted quote []
  | plain {c : Char} {cs : List Char} (hmark : c ≠ quote.mark) (hescape : c ≠ '\\')
      (h : Quoted quote cs) : Quoted quote (c :: cs)
  | escaped {c : Char} {cs : List Char} (h : Quoted quote cs) : Quoted quote ('\\' :: c :: cs)

namespace Enclosure

/-- The texts that are an enclosure, from its opening to its first end. -/
inductive Spans : Enclosure → List Char → Prop where
  /-- The newline belongs to the comment. -/
  | lineComment {line : List Char} (h : '\n' ∉ line) :
      Spans lineComment ('/' :: '/' :: (line ++ ['\n']))
  | blockComment {inner : List Char} (h : ¬ ['*', '/'] <:+: inner) :
      Spans blockComment ('/' :: '*' :: (inner ++ ['*', '/']))
  | literal {quote : Quote} {inner : List Char} (h : Quoted quote inner) :
      Spans (literal quote) (quote.mark :: (inner ++ [quote.mark]))

/-- The header after the enclosure.  A comment shows in it as a slash, and a line comment as the
end of a line, too. -/
def headerAfter (h : Header) : Enclosure → Header
  | lineComment => (h.read '/').interrupt.read '\n'
  | blockComment => (h.read '/').interrupt
  | literal _ => h.interrupt

end Enclosure

namespace LexState

/-! ## Inside an enclosure -/

/-- From the one state to the other all characters are text of the region. -/
inductive Reads (region : Region) : LexState → List Char → LexState → Prop where
  | nil (s : LexState) : Reads region s [] s
  | cons {s t t' : LexState} {c : Char} {cs : List Char} (hread : s.read c = (.text c region, t))
      (h : Reads region t cs t') : Reads region s (c :: cs) t'

theorem reads_lineComment {line : List Char} (h : '\n' ∉ line) :
    Reads .comment lineComment line lineComment := by
  induction line with
  | nil => exact .nil _
  | cons c line ih =>
      have hc : c ≠ '\n' := fun hc => h (hc ▸ List.mem_cons_self)
      refine .cons ?_ (ih fun hmem => h (List.mem_cons_of_mem _ hmem))
      simp [read, hc]

theorem reads_literal {quote : Quote} {inner : List Char} (h : Quoted quote inner) :
    Reads .literal (literal quote) (inner ++ [quote.mark]) normal := by
  induction h with
  | nil =>
      refine .cons ?_ (.nil _)
      cases quote <;> rfl
  | plain hmark hescape h ih => exact .cons (by simp [read, hmark, hescape]) ih
  | escaped h ih => exact .cons rfl (.cons rfl ih)

/-- A comment whose end does not come early is read to it, also from behind a star.  There a slash
would be the end. -/
theorem reads_blockComment {inner : List Char} (h : ¬ ['*', '/'] <:+: inner) :
    Reads .comment blockComment (inner ++ ['*', '/']) normal ∧
      (inner.head? ≠ some '/' → Reads .comment blockCommentStar (inner ++ ['*', '/']) normal) := by
  induction inner with
  | nil => exact ⟨.cons rfl (.cons rfl (.nil _)), fun _ => .cons rfl (.cons rfl (.nil _))⟩
  | cons c inner ih =>
      have hrest : ¬ ['*', '/'] <:+: inner := by
        intro hearly
        exact h (hearly.trans (List.suffix_cons c inner).isInfix)
      obtain ⟨hcomment, hstar⟩ := ih hrest
      by_cases hc : c = '*'
      · have hhead : inner.head? ≠ some '/' := by
          intro hhead
          obtain ⟨tail, rfl⟩ := List.head?_eq_some_iff.1 hhead
          exact h (hc ▸ (List.prefix_append ['*', '/'] tail).isInfix)
        exact ⟨.cons (by simp [read, hc]) (hstar hhead),
          fun _ => .cons (by simp [read, hc]) (hstar hhead)⟩
      · refine ⟨.cons (by simp [read, hc]) hcomment, fun hhead => ?_⟩
        have hslash : c ≠ '/' := fun hslash => hhead (hslash ▸ rfl)
        exact .cons (by simp [read, hc, hslash]) hcomment

end LexState

/-- Outside of code a character ends the word in progress and does nothing else to the header. -/
theorem Draft.header_writeChar_of_ne_code {region : Region} (h : region ≠ .code) (d : Draft)
    (c : Char) : (d.writeChar c region).header = d.header.interrupt := by
  cases region with
  | code => exact absurd rfl h
  | literal => rfl
  | comment => rfl

namespace CompilationUnit

variable {u : CompilationUnit}

/-! ## Text that is written as it is -/

/-- The unit with `cs` written, and with the header and the lexical state that come of it. -/
def written (u : CompilationUnit) (cs : List Char) (header : Header) (s : LexState) :
    CompilationUnit :=
  { u with
    draft := { u.draft with text := u.draft.text ++ String.ofList cs, header }
    lexer := ⟨s, false⟩ }

/-- The unit at the same point of its run, but with nothing written. -/
def blank (u : CompilationUnit) (header : Header) (s : LexState) : CompilationUnit :=
  { u with draft := { u.draft with text := "", header }, lexer := ⟨s, false⟩ }

theorem AtRest.written (hu : u.AtRest) (cs : List Char) (header : Header) (s : LexState) :
    (u.written cs header s).AtRest :=
  ⟨rfl, hu.noPayload, hu.noFailure⟩

theorem written_written (u : CompilationUnit) (cs ds : List Char) (header header' : Header)
    (s s' : LexState) :
    (u.written cs header s).written ds header' s' = u.written (cs ++ ds) header' s' := by
  simp only [CompilationUnit.written, String.ofList_append, String.append_assoc]

theorem AtRest.written_nil (hu : u.AtRest) : u.written [] u.draft.header u.lexer.state = u := by
  simp only [CompilationUnit.written, String.ofList_nil, String.append_empty, ← hu.lexer_eq]

/-- A character of text is written, whatever region it is in. -/
theorem AtRest.append_text (hu : u.AtRest) {c : Char} (hfree : MarkFree [c]) {region : Region}
    {t : LexState} (hread : u.lexer.state.read c = (.text c region, t)) :
    u.appendList [c] = .ok (u.written [c] (u.draft.writeChar c region).header t) := by
  obtain ⟨hs, he, -⟩ := markFree_cons.1 hfree
  have hclassify := hu.classify_plain hs he
  rw [hread] at hclassify
  rw [appendList_singleton,
    append_eq_ok (by rw [hclassify]; exact Draft.handle_eq_ok hu.noFailure rfl), hclassify]
  simp only [CompilationUnit.written, Draft.writeChar, String.push_eq_append]
  rfl

theorem appendList_append_of_written {cs ds : List Char} {header header' : Header}
    {s s' : LexState} (hcs : u.appendList cs = .ok (u.written cs header s))
    (hds : (u.written cs header s).appendList ds =
      .ok ((u.written cs header s).written ds header' s')) :
    u.appendList (cs ++ ds) = .ok (u.written (cs ++ ds) header' s') := by
  rw [appendList_append, hcs, Outcome.andThen_ok, hds, written_written]

/-- Inside an enclosure text is written and the header stays as it is. -/
theorem AtRest.appendList_reads (hu : u.AtRest) {cs : List Char} (hfree : MarkFree cs)
    {region : Region} (hregion : region ≠ .code) {t : LexState}
    (h : LexState.Reads region u.lexer.state cs t)
    (hended : u.draft.header.interrupt = u.draft.header) :
    u.appendList cs = .ok (u.written cs u.draft.header t) := by
  generalize hstate : u.lexer.state = s at h
  induction h generalizing u with
  | nil s => rw [appendList_nil, ← hstate, hu.written_nil]
  | @cons s t t' c cs hread h ih =>
      rw [← List.singleton_append, markFree_append] at hfree
      obtain ⟨hc, hcs⟩ := hfree
      rw [← hstate] at hread
      have hfirst := hu.append_text hc hread
      rw [Draft.header_writeChar_of_ne_code hregion, hended] at hfirst
      exact appendList_append_of_written hfirst (ih (hu.written [c] _ t) hcs hended rfl)

/-- The two characters that open a comment.  The first of them is still taken for code. -/
theorem AtRest.appendList_opening (hu : u.AtRest) (hnormal : u.lexer.state = .normal) {c : Char}
    {s : LexState} (hfree : MarkFree ['/', c])
    (hread : LexState.slash.read c = (.text c .comment, s)) :
    u.appendList ['/', c] = .ok (u.written ['/', c] (u.draft.header.read '/').interrupt s) := by
  rw [← List.singleton_append, markFree_append] at hfree
  obtain ⟨hslash, hc⟩ := hfree
  refine appendList_append_of_written (hu.append_text hslash (by rw [hnormal]; rfl)) ?_
  exact (hu.written ['/'] _ .slash).append_text hc hread

/-- **An enclosure is written and leaves nothing behind but its kind.** -/
theorem AtRest.appendList_spans (hu : u.AtRest) (hnormal : u.lexer.state = .normal)
    {kind : Enclosure} {cs : List Char} (h : kind.Spans cs) (hfree : MarkFree cs) :
    u.appendList cs = .ok (u.written cs (kind.headerAfter u.draft.header) .normal) := by
  cases h with
  | @lineComment line h =>
      have hsplit : '/' :: '/' :: (line ++ ['\n']) = ['/', '/'] ++ line ++ ['\n'] := rfl
      rw [hsplit, markFree_append, markFree_append] at hfree
      obtain ⟨⟨hopening, hline⟩, hnewline⟩ := hfree
      rw [hsplit]
      have hcomment : u.appendList (['/', '/'] ++ line) =
          .ok (u.written (['/', '/'] ++ line) (u.draft.header.read '/').interrupt .lineComment) :=
        appendList_append_of_written (hu.appendList_opening hnormal hopening rfl)
          ((hu.written ['/', '/'] _ .lineComment).appendList_reads hline (by decide)
            (LexState.reads_lineComment h) (Header.endWord_endWord _))
      refine appendList_append_of_written hcomment ?_
      exact (hu.written _ _ .lineComment).append_text hnewline rfl
  | @blockComment inner h =>
      have hsplit : '/' :: '*' :: (inner ++ ['*', '/']) = ['/', '*'] ++ (inner ++ ['*', '/']) := rfl
      rw [hsplit, markFree_append] at hfree
      rw [hsplit]
      refine appendList_append_of_written (hu.appendList_opening hnormal hfree.1 rfl) ?_
      exact (hu.written ['/', '*'] _ .blockComment).appendList_reads hfree.2 (by decide)
        (LexState.reads_blockComment h).1 (Header.endWord_endWord _)
  | @literal quote inner h =>
      have hread : u.lexer.state.read quote.mark = (.text quote.mark .literal, .literal quote) := by
        rw [hnormal]
        cases quote <;> rfl
      rw [← List.singleton_append, markFree_append] at hfree
      rw [← List.singleton_append]
      refine appendList_append_of_written (hu.append_text hfree.1 hread) ?_
      exact (hu.written [quote.mark] _ (.literal quote)).appendList_reads hfree.2 (by decide)
        (LexState.reads_literal h) (Header.endWord_endWord _)

/-! ## Two enclosures of one kind -/

/-- To write a text is to put it, and all before it, before a unit that has written nothing. -/
theorem AtRest.written_eq_precededBy (hu : u.AtRest) (cs : List Char) (header : Header)
    (s : LexState) :
    u.written cs header s = (u.blank header s).precededBy (u.text ++ String.ofList cs) := by
  simp only [CompilationUnit.written, blank, precededBy, Draft.precededBy, String.append_empty,
    hu.noFailure, Option.map_none]
  rfl

variable {visible : Visibility} {target : TypeName} {companions : List TypeName}
  {features : Features} {v : CompilationUnit} {history : List BlockStep}

/-- **Two enclosures of one kind make no difference but in the text.**  Both are taken, and the two
units that come of them agree in everything but the characters of the enclosure.  Whatever edits
follow, they agree in all the text after it, spell every type in the same way, and fail in the same
edit with the same error.  As an edit can be a text or a single character, they fail at the same
character. -/
theorem alike_after_spans (hstart : start visible target companions features = .ok u)
    (h : Reaches u history v) (hok : v.draft.isPoisoned = false)
    (hmark : v.lexer.inReference = false) (hnormal : v.lexer.state = .normal)
    {kind : Enclosure} {c d : List Char} (hc : kind.Spans c) (hd : kind.Spans d)
    (hcfree : MarkFree c) (hdfree : MarkFree d) :
    ∃ x y, v.appendList c = .ok x ∧ v.appendList d = .ok y ∧
      x.text = v.text ++ String.ofList c ∧ y.text = v.text ++ String.ofList d ∧
      ∀ edits, AlikeAfter x.text y.text (x.editAll edits) (y.editAll edits) ∧
        (x.mentions edits).map (fun m => (m.type, m.spelling)) =
          (y.mentions edits).map (fun m => (m.type, m.spelling)) ∧
        ∀ e, ∃ error? : Option BodyError,
          ((x.editAll edits).edit e).error? = error?.map (·.precededBy x.text) ∧
          ((y.editAll edits).edit e).error? = error?.map (·.precededBy y.text) := by
  have hrest := h.atRest hstart hok hmark
  have hx := hrest.appendList_spans hnormal hc hcfree
  have hy := hrest.appendList_spans hnormal hd hdfree
  refine ⟨_, _, hx, hy, rfl, rfl, fun edits => ?_⟩
  have htext (cs : List Char) (header : Header) (s : LexState) :
      (v.written cs header s).text = v.text ++ String.ofList cs := rfl
  rw [htext, htext, hrest.written_eq_precededBy, hrest.written_eq_precededBy]
  exact alikeAfter_run _ _ _ edits

/-- Between the name of a class and its body a comment that seems to open another class is like an
empty one: it is the body of the first that opens. -/
theorem alike_after_spans_blockComment :
    ∃ u history v x y, start Visibility.nothing ⟨["com", "example"], ["Widget"]⟩ [] .empty = .ok u ∧
      Reaches u history v ∧ v.text = preamble ⟨["com", "example"], ["Widget"]⟩ ++ "class A" ∧
      v.appendList ('/' :: '*' :: (" class B \x7b ".toList ++ ['*', '/'])) = .ok x ∧
      v.appendList ('/' :: '*' :: ([] ++ ['*', '/'])) = .ok y ∧
      (x.editAll [.char '{']).draft.blocks =
        [⟨.type ⟨["com", "example"], ["A"]⟩, 1⟩] := by
  let target : TypeName := ⟨["com", "example"], ["Widget"]⟩
  let u := fresh target .empty (Scope.empty.claim target true)
  let v := (u.appendText "class A").state
  have hstart : start Visibility.nothing target [] .empty = .ok u :=
    start_nothing target .empty (by decide)
  obtain ⟨history, hreaches⟩ := (Reaches.refl (u := u)).appendList "class A".toList
  have hinner : ¬ ['*', '/'] <:+: " class B \x7b ".toList := by decide +kernel
  obtain ⟨x, y, hx, hy, -, -, hlater⟩ := alike_after_spans hstart hreaches (by decide +kernel)
    (by decide +kernel) (by decide +kernel) (.blockComment hinner)
    (.blockComment (show ¬ ['*', '/'] <:+: [] by decide +kernel)) (by decide +kernel)
    (by decide +kernel)
  obtain ⟨halike, -⟩ := hlater [.char '{']
  refine ⟨u, _, v, x, y, hstart, hreaches, by decide +kernel, hx, hy, ?_⟩
  have hstate : (v.appendList ('/' :: '*' :: ([] ++ ['*', '/']))).state = y :=
    congrArg Outcome.state hy
  rw [halike.blocks, ← hstate]
  decide +kernel

end CompilationUnit
end JavaUnit
