import JavaUnit.Proofs.Declarations
import JavaUnit.Proofs.ImportBlock
import Mathlib.Data.List.Infix

/-!
# A declaration names its block

Wherever code can stand, a declaration gives its block a name: a keyword, a gap of white space and
comments, an identifier, whatever may come between a name and a body, and a `{`.  The name can be
written down or be a reference that is spelled by it, comments can have references in them, and what
comes before the body can be all that Java allows and more (`HeaderTail`).

The stream is followed part by part.  `Carries h s cs h' s'` says that it takes any unit with header
`h` and lexical state `s` to one with `h'` and `s'` that differs in its text and its scope besides.
The header goes from a keyword to `Awaits`, which the gap preserves, and from there to a name, which
the tail keeps (`HeaderTail.carries`), as there is no other keyword in it that counts.
-/

namespace JavaUnit

open Unicode

/-! ## The parts of a declaration -/

/-- What a comment can hold: text that does not end it, and references to types in it. -/
inductive Remark (ending : List Char) : List Char → Prop where
  | text {cs : List Char} (hfree : MarkFree cs) (hends : ¬ ending <:+: cs) : Remark ending cs
  | reference {cs payload rest : List Char} {q : TypeName} (hfree : MarkFree cs)
      (hends : ¬ ending <:+: cs) (hpayload : Reference.endMark ∉ payload)
      (hparse : TypeName.parse (String.ofList payload) = .ok q) (h : Remark ending rest) :
      Remark ending (cs ++ ((StreamPiece.reference payload).stream ++ rest))

/-- White space and comments that are complete. -/
inductive Gap : List Char → Prop where
  | nil : Gap []
  | space {c : Char} {rest : List Char} (hspace : isWhiteSpace c = true) (h : Gap rest) :
      Gap (c :: rest)
  | lineComment {line rest : List Char} (hline : Remark ['\n'] line) (h : Gap rest) :
      Gap ('/' :: '/' :: (line ++ '\n' :: rest))
  | blockComment {inner rest : List Char} (hinner : Remark ['*', '/'] inner) (h : Gap rest) :
      Gap ('/' :: '*' :: (inner ++ '*' :: '/' :: rest))

/-- The streams that write `name` at this point: the name as it is, and a reference that is spelled
by it. -/
inductive NameStream (u : CompilationUnit) (name : String) : List Char → Prop where
  | plain : NameStream u name name.toList
  | reference {payload : List Char} {q : TypeName} (hpayload : Reference.endMark ∉ payload)
      (hparse : TypeName.parse (String.ofList payload) = .ok q)
      (hspelling : (u.spell q).1 = name) : NameStream u name (StreamPiece.reference payload).stream

/-- What can stand between the name of a type and its body. -/
structure HeaderTail (tail : List Char) : Prop where
  markFree : MarkFree tail
  /-- The name is not made longer. -/
  apart : ∀ c ∈ tail.head?, isIdentifierPart c = false
  /-- No `;`, `{` or `}` in code. -/
  unended : ∀ l ∈ lexemes tail, l.ends = false
  /-- No comment or literal is left open. -/
  closed : LexState.normal.after tail = .normal ∨ LexState.normal.after tail = .slash
  /-- A keyword that announces a declaration comes after a dot only, as in a class literal. -/
  dotted : ∀ earlier keyword later, lexemes tail = earlier ++ codeWord keyword ++ later →
    isDeclarationKeyword keyword = true → Whole earlier later → lastShown? earlier = some '.'

theorem StreamPiece.not_markFree_reference (payload : List Char) :
    ¬ MarkFree (StreamPiece.reference payload).stream :=
  fun hfree => hfree.1 List.mem_cons_self

/-! ## The header along the way -/

namespace Header

variable {h : Header} {l : Lexeme} {name word keyword : String}

/-- The header waits for the name of a type. -/
structure Awaits (h : Header) : Prop where
  pending : h.endWord.pending = .keyword
  noDot : h.lastCode? ≠ some '.'

/-- The header with `word` in progress. -/
def withWord (h : Header) (word : String) : Header :=
  { h with word, afterDot := h.lastCode? == some '.', lastCode? := word.toList.getLast? }

/-- The header once a reference has been written that is spelled `spelling`. -/
def afterReference (h : Header) (spelling : String) : Region → Header
  | .code => h.interrupt.readSpelling spelling
  | .literal | .comment => h.interrupt

theorem foldl_read_word (hnone : h.word = "") (hword : isWord word = true) :
    word.toList.foldl read h = h.withWord word := by
  have hgoes {cs : List Char} {h : Header} (hne : h.word ≠ "")
      (hcs : ∀ c ∈ cs, isIdentifierPart c = true) :
      cs.foldl read h =
        { h with
          word := h.word ++ String.ofList cs
          lastCode? := cs.getLast?.or h.lastCode? } := by
    induction cs generalizing h with
    | nil => simp
    | cons c cs ih =>
        have hc : h.continues c = true := by
          rw [continues, if_neg hne]
          exact hcs c List.mem_cons_self
        rw [List.foldl_cons, read_of_continues hc, if_neg hne,
          ih (by simp) fun d hd => hcs d (List.mem_cons_of_mem _ hd)]
        simp only [String.ofList_cons, String.push_eq_append, String.append_assoc,
          List.getLast?_cons]
        cases cs.getLast? <;> rfl
  obtain ⟨c, cs, hcs, hc, hparts⟩ := exists_of_isWord hword
  have hstart : h.continues c = true := by
    rw [continues, if_pos hnone]
    exact hc
  have hspelled : word = String.ofList (c :: cs) := by rw [← hcs, String.ofList_toList]
  rw [hcs, List.foldl_cons, read_of_continues hstart, hgoes (by simp) hparts, if_pos hnone,
    withWord, hcs, List.getLast?_cons, hspelled, hnone, String.ofList_cons, String.push_eq_append,
    String.empty_append]
  cases cs.getLast? <;> rfl

/-- Behind a keyword that follows no dot the header waits for a name. -/
theorem awaits_withWord (hdot : h.lastCode? ≠ some '.')
    (hkeyword : isDeclarationKeyword keyword = true) : (h.withWord keyword).Awaits := by
  have hword := isWord_of_isDeclarationKeyword hkeyword
  obtain ⟨c, hlast, hc⟩ := getLast?_ne_dot_of_isWord hword
  have hne : keyword ≠ "" := by
    rintro rfl
    exact absurd hkeyword (by decide)
  refine ⟨?_, ?_⟩
  · have hafter : (h.lastCode? == some '.') = false := by simpa using hdot
    simp [endWord, withWord, hne, hafter, hkeyword]
  · show keyword.toList.getLast? ≠ some '.'
    rw [hlast]
    simpa using hc

/-- Where a name is waited for, an identifier that follows no dot is the name. -/
theorem endWord_of_name (hpending : h.pending = .keyword) (hafter : h.afterDot = false)
    (hname : isIdentifier h.word = true) (hkeyword : isDeclarationKeyword h.word = false) :
    h.endWord = { h with word := "", pending := .named h.word } := by
  simp [endWord, ne_empty_of_isIdentifier hname, hafter, hkeyword, hpending, hname]

section Awaits

variable (ha : h.Awaits)
include ha

theorem Awaits.pending_eq (hnone : h.word = "") : h.pending = .keyword := by
  have hpending := ha.pending
  rwa [endWord_of_word_eq_empty hnone] at hpending

theorem Awaits.afterDot_eq : (h.lastCode? == some '.') = false := by
  simpa using ha.noDot

/-- An identifier that comes next is the name. -/
theorem Awaits.pending_withWord (hnone : h.word = "") (hname : isIdentifier name = true)
    (hkeyword : isDeclarationKeyword name = false) :
    (h.withWord name).endWord.pending = .named name := by
  have hnamed : (h.withWord name).endWord =
      { h.withWord name with word := "", pending := .named name } :=
    endWord_of_name (ha.pending_eq hnone) ha.afterDot_eq hname hkeyword
  rw [hnamed]

/-- A name counts that comes as a reference. -/
theorem Awaits.pending_readSpelling (hnone : h.word = "") (hname : isIdentifier name = true)
    (hkeyword : isDeclarationKeyword name = false) :
    (h.interrupt.readSpelling name).endWord.pending = .named name := by
  have hended : h.interrupt.endWord = h := by
    rw [interrupt, endWord_endWord, endWord_of_word_eq_empty hnone]
  have hcounted : endWord { h with word := name, afterDot := h.lastCode? == some '.' } =
      { h with word := "", afterDot := h.lastCode? == some '.', pending := .named name } :=
    endWord_of_name (ha.pending_eq hnone) ha.afterDot_eq hname hkeyword
  rw [readSpelling, hended, if_pos hname, hcounted, endWord_of_word_eq_empty rfl]

end Awaits

/-- White space and comments leave the header waiting. -/
theorem Awaits.see (ha : h.Awaits) (hl : l.passes = true) :
    (h.see l).Awaits ∧ (h.see l).word = "" := by
  have hstill : l.cancels h.endWord.pending = false :=
    Lexeme.cancels_eq_false (Lexeme.ends_of_passes hl) hl _
  rw [see_of_isPart_eq_false (Lexeme.isPart_of_passes hl), hstill, if_neg (by decide)]
  refine ⟨⟨?_, ?_⟩, word_endWord h⟩
  · refine (congrArg Header.pending (endWord_of_word_eq_empty ?_)).trans ha.pending
    exact word_endWord h
  · show l.shown?.or h.lastCode? ≠ some '.'
    cases hshown : l.shown? with
    | none => exact ha.noDot
    | some c =>
        have hdot := Lexeme.shown?_ne_dot_of_passes hl
        rw [hshown] at hdot
        exact hdot

/-- A word that ends does not touch a name, unless it is a keyword that follows no dot. -/
theorem Tracks.pending_endWord {h₀ : Header} {done : List Lexeme} (hh : Tracks h₀ done h)
    (hnamed : h.pending = .named name)
    (hdot : isDeclarationKeyword h.word = true → lastShown? done = some '.') :
    h.endWord.pending = .named name := by
  by_cases hword : h.word = ""
  · rw [endWord_of_word_eq_empty hword]
    exact hnamed
  · have hafter := hh.afterDot_eq hword
    cases hkeyword : isDeclarationKeyword h.word with
    | true =>
        rw [hdot hkeyword, Option.some_or, beq_self_eq_true] at hafter
        simp [endWord, hword, hafter, hnamed]
    | false =>
        unfold endWord
        rw [if_neg hword, hkeyword, hnamed]
        split <;> rfl

end Header

namespace HeaderTail

variable {tail : List Char} {h h₀ : Header} {name : String}

/-- No part of a word comes first, so none is the first lexeme. -/
theorem isPart_of_mem_head? (htail : HeaderTail tail) {l : Lexeme}
    (hl : l ∈ (lexemes tail).head?) : l.isPart = false := by
  have hapart := htail.apart
  generalize tail = cs at hl hapart
  have hfirst {m : Lexeme} {ls : List Lexeme} (hm : m.isPart = false)
      (hl : l ∈ (m :: ls).head?) : l.isPart = false := by
    obtain rfl : m = l := by simpa using hl
    exact hm
  fun_cases lexemes cs with
  | case1 =>
      rw [lexemes] at hl
      exact absurd hl (by simp)
  | case2 rest =>
      rw [lexemes] at hl
      exact hfirst rfl hl
  | case3 rest =>
      rw [lexemes] at hl
      exact hfirst rfl hl
  | case4 rest =>
      rw [lexemes] at hl
      exact hfirst rfl hl
  | case5 rest =>
      rw [lexemes] at hl
      exact hfirst rfl hl
  | case6 c rest hline hblock hstring hchar =>
      rw [lexemes.eq_6 c rest hline hblock hstring hchar] at hl
      have hc : (Lexeme.code c).isPart = false := hapart c (by simp)
      exact hfirst hc hl

/-- A word of the tail does not touch the name. -/
theorem pending_endWord (htail : HeaderTail tail) {done later : List Lexeme}
    (hh : Header.Tracks h₀ done h) (hnamed : h.pending = .named name)
    (hsplit : lexemes tail = done ++ codeWord h.word ++ later)
    (hended : h.word ≠ "" → ∀ l ∈ later.head?, l.isPart = false) :
    h.endWord.pending = .named name := by
  refine hh.pending_endWord hnamed fun hkeyword => ?_
  have hword : h.word ≠ "" := by
    intro hword
    rw [hword] at hkeyword
    exact absurd hkeyword (by decide)
  exact htail.dotted done h.word later hsplit hkeyword ⟨hh.outside, hended hword⟩

/-- **A declaration that has its name keeps it over whatever comes before the body.**  The invariant
is that every beginning of the tail leaves the name where it is, as a keyword in it that is done is
one of the whole tail. -/
theorem pending_foldl_see (htail : HeaderTail tail) (hnamed : h.endWord.pending = .named name) :
    ((lexemes tail).foldl Header.see h).endWord.pending = .named name := by
  have hended : ((lexemes tail).foldl Header.see h).endWord =
      ((lexemes tail).foldl Header.see h.endWord).endWord := by
    cases hls : lexemes tail with
    | nil => exact (Header.endWord_endWord h).symm
    | cons l ls =>
        have hl : l.isPart = false := htail.isPart_of_mem_head? (by simp [hls])
        rw [List.foldl_cons, List.foldl_cons, Header.see_endWord hl]
  have hstep : ∀ done (h' : Header) l, Header.Tracks h.endWord done h' →
      (done <+: lexemes tail → h'.pending = .named name) →
      inWord (done ++ codeWord h'.word ++ [l]) = false →
      done ++ codeWord h'.word ++ [l] <+: lexemes tail →
      (if l.cancels h'.endWord.pending then Pending.nothing else h'.endWord.pending) =
        .named name := by
    rintro done h' l hh hkept hl ⟨rest, hsplit⟩
    have hsplit' : lexemes tail = done ++ codeWord h'.word ++ l :: rest := by
      rw [← hsplit, List.append_assoc, List.singleton_append]
    have hbefore : done <+: lexemes tail := by
      rw [hsplit', List.append_assoc]
      exact List.prefix_append _ _
    have hnamed' : h'.endWord.pending = .named name := by
      refine htail.pending_endWord hh (hkept hbefore) hsplit' fun hword m hm => ?_
      obtain rfl : l = m := by simpa using hm
      rw [hh.inWord_concat, if_neg hword] at hl
      exact hl
    have hstays : l.ends = false := htail.unended l (by rw [hsplit']; simp)
    rw [hnamed', Lexeme.cancels, hstays]
    rfl
  obtain ⟨done, hls, hh, hkept⟩ := Header.Tracks.inv
    (P := fun done pending => done <+: lexemes tail → pending = .named name)
    (Header.word_endWord h) (fun _ => hnamed) hstep (lexemes tail)
  have hbefore : done <+: lexemes tail := ⟨_, hls.symm⟩
  rw [hended]
  exact htail.pending_endWord hh (hkept hbefore) (by rw [List.append_nil]; exact hls) (by simp)

end HeaderTail

/-! ## From one unit to another -/

namespace CompilationUnit

variable {u v : CompilationUnit} {cs ds : List Char} {h h' h'' : Header} {s s' s'' : LexState}

/-- The unit with this text, scope, header and lexical state, and as it was besides. -/
def carried (u : CompilationUnit) (text : String) (scope : Scope) (header : Header)
    (s : LexState) : CompilationUnit :=
  { u with draft := { u.draft with text, scope, header }, lexer := ⟨s, false⟩ }

theorem AtRest.carried (hu : u.AtRest) (text : String) (scope : Scope) (header : Header)
    (s : LexState) : (u.carried text scope header s).AtRest :=
  ⟨rfl, hu.noPayload, hu.noFailure⟩

/-- The stream is taken by any unit with this header and this lexical state, and takes it to these.
Only the text changes besides, and the scope if the stream has references. -/
def Carries (h : Header) (s : LexState) (cs : List Char) (h' : Header) (s' : LexState) : Prop :=
  ∀ u : CompilationUnit, u.AtRest → u.draft.header = h → u.lexer.state = s →
    ∃ text scope, u.appendList cs = .ok (u.carried text scope h' s') ∧
      (MarkFree cs → scope = u.scope)

theorem Carries.trans (hcs : Carries h s cs h' s') (hds : Carries h' s' ds h'' s'') :
    Carries h s (cs ++ ds) h'' s'' := by
  intro u hu hh hs
  obtain ⟨text, scope, hfirst, hscope⟩ := hcs u hu hh hs
  obtain ⟨text', scope', hsecond, hscope'⟩ := hds _ (hu.carried text scope h' s') rfl rfl
  refine ⟨text', scope', ?_, fun hfree => ?_⟩
  · rw [appendList_append, hfirst, Outcome.andThen_ok, hsecond]
    rfl
  · obtain ⟨hfree, hfree'⟩ := markFree_append.1 hfree
    exact (hscope' hfree').trans (hscope hfree)

theorem carries_nil (h : Header) (s : LexState) : Carries h s [] h s := by
  rintro u hu rfl rfl
  have hnil : u.appendList [] = .ok (u.written [] u.draft.header u.lexer.state) :=
    congrArg Outcome.ok hu.written_nil.symm
  exact ⟨_, _, hnil, fun _ => rfl⟩

/-- Text without a brace in code. -/
theorem carries_text (hfree : MarkFree cs) (hbraces : Event.braces (s.events cs) = []) :
    Carries h s cs ((s.events cs).foldl Header.note h) (s.after cs) := by
  rintro u hu rfl rfl
  exact ⟨_, _, hu.appendList_of_braces hfree hbraces, fun _ => rfl⟩

/-- Text inside a comment or a literal. -/
theorem carries_reads (hfree : MarkFree cs) {region : Region} (hregion : region ≠ .code)
    (hreads : LexState.Reads region s cs s') (hended : h.interrupt = h) :
    Carries h s cs h s' := by
  rintro u hu rfl rfl
  exact ⟨_, _, hu.appendList_reads hfree hregion hreads hended, fun _ => rfl⟩

/-- A reference to a type is written as its spelling. -/
theorem AtRest.appendList_named (hu : u.AtRest) {payload : List Char} {q : TypeName}
    (hpayload : Reference.endMark ∉ payload)
    (hparse : TypeName.parse (String.ofList payload) = .ok q) :
    u.appendList (StreamPiece.reference payload).stream =
      .ok (u.carried (u.text ++ (u.spell q).1) (u.spell q).2.scope
        (u.draft.header.afterReference (u.spell q).1 u.lexer.state.region)
        u.lexer.state.settle) := by
  rw [hu.appendList_reference hpayload, hparse]
  have hnone := hu.noPayload
  obtain ⟨target, features, ⟨text, blocks, scope, package, header, shadows, reference?, failedAt?⟩,
    lexer⟩ := u
  obtain rfl : reference? = none := hnone
  rw [← Lexer.region_settle lexer.state]
  rfl

/-- A reference to a type in a comment. -/
theorem carries_reference {payload : List Char} {q : TypeName}
    (hpayload : Reference.endMark ∉ payload)
    (hparse : TypeName.parse (String.ofList payload) = .ok q) (hregion : s.region = .comment) :
    Carries h s (StreamPiece.reference payload).stream h.interrupt s.settle := by
  rintro u hu rfl rfl
  have htaken := hu.appendList_named hpayload hparse
  rw [hregion] at htaken
  exact ⟨_, _, htaken, fun hfree => absurd hfree (StreamPiece.not_markFree_reference payload)⟩

end CompilationUnit

/-! ## The gap -/

namespace LexState

variable {region : Region} {s t : LexState} {cs ds : List Char}

theorem Reads.of_append (h : Reads region s (cs ++ ds) t) :
    ∃ m, Reads region s cs m ∧ Reads region m ds t := by
  induction cs generalizing s with
  | nil => exact ⟨s, .nil s, h⟩
  | cons c cs ih =>
      cases h with
      | cons hread h =>
          obtain ⟨m, hcs, hds⟩ := ih h
          exact ⟨m, .cons hread hcs, hds⟩

/-- Text that does not end a block comment may leave the beginning of an end. -/
theorem reads_within_blockComment (h : ¬ ['*', '/'] <:+: cs) :
    ∃ t, Reads .comment blockComment cs t ∧ t.settle = blockComment := by
  obtain ⟨t, hreads, -⟩ := (reads_blockComment h).1.of_append
  refine ⟨t, hreads, ?_⟩
  rw [← hreads.after_eq, after_of_not_infix h]
  split <;> rfl

end LexState

namespace CompilationUnit

variable {u v : CompilationUnit} {cs : List Char} {h : Header} {s : LexState}

/-- What a comment holds leaves the header alone. -/
theorem carries_remark {ending : List Char} (hremark : Remark ending cs) (hended : h.interrupt = h)
    (hregion : s.region = .comment)
    (hreads : ∀ cs, ¬ ending <:+: cs → ∃ t, LexState.Reads .comment s cs t ∧ t.settle = s) :
    ∃ t, t.settle = s ∧ Carries h s cs h t := by
  induction hremark with
  | @text cs hfree hends =>
      obtain ⟨t, ht, hsettle⟩ := hreads cs hends
      exact ⟨t, hsettle, carries_reads hfree (by decide) ht hended⟩
  | @reference cs payload rest q hfree hends hpayload hparse hrest ih =>
      obtain ⟨t, ht, hsettle⟩ := hreads cs hends
      obtain ⟨t', hsettle', hlast⟩ := ih
      have hregion' : t.region = .comment := by
        rw [← Lexer.region_settle, hsettle, hregion]
      have hname := carries_reference (h := h) hpayload hparse hregion'
      rw [hended, hsettle] at hname
      exact ⟨t', hsettle', (carries_reads hfree (by decide) ht hended).trans (hname.trans hlast)⟩

theorem carries_space {c : Char} (hspace : isWhiteSpace c = true) :
    Carries h .normal [c] (h.see (.code c)) .normal := by
  have hne (d : Char) (hd : isWhiteSpace d = false) : c ≠ d :=
    ne_of_apply_ne isWhiteSpace (by rw [hspace, hd]; decide)
  have hopen := hne '{' (by decide +kernel)
  have hclose := hne '}' (by decide +kernel)
  have hread : LexState.normal.read c = (.text c .code, .normal) := by
    obtain ⟨hevent, hstate⟩ := LexState.readCode_of_ne (hne '/' (by decide +kernel))
      (hne '"' (by decide +kernel)) (hne '\'' (by decide +kernel))
    rw [Lexeme.events, if_neg hopen, if_neg hclose] at hevent
    exact Prod.ext (List.cons_eq_cons.1 hevent).1 hstate
  have hfree : MarkFree [c] :=
    markFree_cons.2 ⟨hne _ (by decide +kernel), hne _ (by decide +kernel), markFree_nil⟩
  have htext : LexState.normal.events [c] = [.text c .code] ∧
      LexState.normal.after [c] = .normal := by
    rw [LexState.events_cons, LexState.after_cons, hread]
    exact ⟨rfl, rfl⟩
  have hcarries := carries_text (h := h) (s := .normal) hfree (by rw [htext.1]; rfl)
  rw [htext.1, htext.2] at hcarries
  rw [Header.see_code hopen hclose]
  exact hcarries

/-- **Over a gap the header waits for the name.** -/
theorem carries_gap (hgap : Gap cs) (ha : h.Awaits) (hword : cs = [] → h.word = "") :
    ∃ h', h'.Awaits ∧ h'.word = "" ∧ Carries h .normal cs h' .normal := by
  induction hgap generalizing h with
  | nil => exact ⟨h, ha, hword rfl, carries_nil h .normal⟩
  | @space c rest hspace hrest ih =>
      have hpasses : (Lexeme.code c).passes = true := by
        rw [Lexeme.passes, hspace, Bool.true_or]
      obtain ⟨ha', hnone⟩ := ha.see hpasses
      obtain ⟨h', hawaits, hended, hcarries⟩ := ih ha' fun _ => hnone
      exact ⟨h', hawaits, hended, (carries_space hspace).trans hcarries⟩
  | @lineComment line rest hline hrest ih =>
      obtain ⟨ha₁, hnone₁⟩ := ha.see (l := .lineComment []) rfl
      have hended := Header.endWord_of_word_eq_empty hnone₁
      obtain ⟨t, ht, hinner⟩ := carries_remark (s := .lineComment) hline hended rfl
        fun cs hcs =>
          ⟨.lineComment, LexState.reads_lineComment (mt (List.singleton_infix_iff _ _).2 hcs), rfl⟩
      obtain rfl : t = .lineComment := by
        cases t <;> simp [LexState.settle] at ht ⊢
      obtain ⟨ha₂, hnone₂⟩ := ha₁.see (l := .code '\n') (by decide +kernel)
      obtain ⟨h', hawaits, hended', hcarries⟩ := ih ha₂ fun _ => hnone₂
      refine ⟨h', hawaits, hended', ?_⟩
      have hopening : Carries h .normal ['/', '/'] (h.see (.lineComment [])) .lineComment :=
        carries_text (by decide) rfl
      have hnewline : Carries (h.see (.lineComment [])) .lineComment ['\n']
          ((h.see (.lineComment [])).see (.code '\n')) .normal :=
        carries_text (by decide) rfl
      exact hopening.trans (hinner.trans (hnewline.trans hcarries))
  | @blockComment inner rest hinner hrest ih =>
      obtain ⟨ha₁, hnone₁⟩ := ha.see (l := .blockComment []) rfl
      have hended := Header.endWord_of_word_eq_empty hnone₁
      obtain ⟨t, ht, hinside⟩ := carries_remark (s := .blockComment) hinner hended rfl
        fun cs hcs => LexState.reads_within_blockComment hcs
      have hclosing : LexState.Reads .comment t ['*', '/'] .normal := by
        cases t with
        | blockComment => exact .cons rfl (.cons rfl (.nil _))
        | blockCommentStar => exact .cons rfl (.cons rfl (.nil _))
        | _ => simp [LexState.settle] at ht
      obtain ⟨h', hawaits, hended', hcarries⟩ := ih ha₁ fun _ => hnone₁
      refine ⟨h', hawaits, hended', ?_⟩
      have hopening : Carries h .normal ['/', '*'] (h.see (.blockComment [])) .blockComment :=
        carries_text (by decide) rfl
      have hend := carries_reads (by decide) (by decide) hclosing hended
      exact hopening.trans (hinside.trans (hend.trans hcarries))

end CompilationUnit

/-! ## Keyword and name -/

theorem Lexeme.braces_events (l : Lexeme) (hl : l.ends = false) : Event.braces l.events = [] := by
  cases l with
  | code c =>
      simp only [ends, Bool.or_eq_false_iff, beq_eq_false_iff_ne] at hl
      rw [events, if_neg hl.1.2, if_neg hl.2]
      rfl
  | lineComment body => simp [events, Event.braces, Event.isBrace]
  | blockComment body => simp [events, Event.braces, Event.isBrace]
  | literal quote body => simp [events, Event.braces, Event.isBrace]

/-- In code a name is read as what it is. -/
theorem LexState.events_normal_of_isNamePart {cs : List Char}
    (hcs : ∀ c ∈ cs, isNamePart c = true) :
    LexState.normal.events cs = cs.map (Event.text · .code) := by
  induction cs with
  | nil => rfl
  | cons c cs ih =>
      rw [events_cons, read_of_isNamePart (by simp) (hcs c List.mem_cons_self), List.map_cons]
      exact congrArg _ (ih fun d hd => hcs d (List.mem_cons_of_mem _ hd))

theorem isNamePart_of_mem_word {word : String} (hword : isWord word = true) {c : Char}
    (hc : c ∈ word.toList) : isNamePart c = true := by
  rw [isNamePart, isIdentifierPart_of_mem_word hword hc, Bool.true_or]

/-- Of the identifiers only `record` announces a declaration. -/
theorem isDeclarationKeyword_of_ne_record {name : String} (hname : isIdentifier name = true)
    (hrecord : name ≠ "record") : isDeclarationKeyword name = false := by
  refine Bool.eq_false_iff.2 fun hkeyword => ?_
  rcases isDeclarationKeyword_cases hkeyword with rfl | rfl | rfl | rfl
  · exact absurd hname (by decide +kernel)
  · exact absurd hname (by decide +kernel)
  · exact absurd hname (by decide +kernel)
  · exact hrecord rfl

namespace CompilationUnit

variable {u v : CompilationUnit} {cs : List Char} {h : Header} {name word : String}

theorem carries_word (hnone : h.word = "") (hword : isWord word = true) :
    Carries h .normal word.toList (h.withWord word) .normal := by
  have hparts := fun c => isNamePart_of_mem_word (c := c) hword
  have hne : word.toList ≠ [] := by
    obtain ⟨c, cs, hcs, -⟩ := exists_of_isWord hword
    rw [hcs]
    exact List.cons_ne_nil c cs
  have hcarries := carries_text (h := h) (markFree_of_isNamePart hparts)
    (LexState.braces_events_of_isNamePart (s := .normal) (by simp) hparts)
  rw [LexState.events_normal_of_isNamePart hparts, List.foldl_map,
    LexState.after_of_isNamePart (by simp) hparts hne] at hcarries
  rw [← Header.foldl_read_word hnone hword]
  exact hcarries

/-- Whichever way the name is written, the header has it afterwards. -/
theorem AtRest.appendList_nameStream (hu : u.AtRest) (hnormal : u.lexer.state = .normal)
    (hstream : NameStream u name cs) (ha : u.draft.header.Awaits) (hnone : u.draft.header.word = "")
    (hname : isIdentifier name = true) (hrecord : name ≠ "record") :
    ∃ text scope h, u.appendList cs = .ok (u.carried text scope h .normal) ∧
      h.endWord.pending = .named name ∧ (MarkFree cs → scope = u.scope) := by
  have hkeyword := isDeclarationKeyword_of_ne_record hname hrecord
  cases hstream with
  | plain =>
      obtain ⟨text, scope, htaken, hscope⟩ :=
        carries_word hnone (isWord_of_isIdentifier hname) u hu rfl hnormal
      exact ⟨text, scope, _, htaken, ha.pending_withWord hnone hname hkeyword, hscope⟩
  | @reference payload q hpayload hparse hspelling =>
      have htaken := hu.appendList_named hpayload hparse
      rw [hnormal, hspelling] at htaken
      exact ⟨_, _, _, htaken, ha.pending_readSpelling hnone hname hkeyword,
        fun hfree => absurd hfree (StreamPiece.not_markFree_reference payload)⟩

/-- From the name on the tail is taken, and a brace is code behind it. -/
theorem carries_tail {tail : List Char} (htail : HeaderTail tail)
    (hnamed : h.endWord.pending = .named name) :
    ∃ h' s, Carries h .normal tail h' s ∧ h'.endWord.pending = .named name ∧
      (s.read '{').1 = .blockOpen := by
  have hbraces : Event.braces (LexState.normal.events tail) = [] := by
    rw [LexState.events_normal]
    have hunended := htail.unended
    generalize lexemes tail = ls at hunended ⊢
    induction ls with
    | nil => rfl
    | cons l ls ih =>
        rw [List.flatMap_cons, Event.braces_append,
          l.braces_events (hunended l List.mem_cons_self),
          ih fun m hm => hunended m (List.mem_cons_of_mem _ hm)]
        rfl
  have hcarries := carries_text (h := h) htail.markFree hbraces
  rw [Header.foldl_note_normal] at hcarries
  refine ⟨_, _, hcarries, htail.pending_foldl_see hnamed, ?_⟩
  rcases htail.closed with hnormal | hslash
  · rw [hnormal]
    rfl
  · rw [hslash]
    rfl

/-! ## The block -/

variable {visible : Visibility} {target : TypeName} {companions : List TypeName}
  {features : Features} {history : List BlockStep}

/-- In a run the blocks are nested, whatever else happens. -/
theorem Reaches.wellNested (hstart : start visible target companions features = .ok u)
    (h : Reaches u history v) : v.draft.WellNested target.package := by
  have hfresh : u.draft.WellNested target.package := by
    obtain ⟨-, scope, -, rfl⟩ := start_eq_ok_iff.1 hstart
    exact ⟨rfl, .nil, fun block hmem => absurd hmem List.not_mem_nil,
      Header.namesType_of_pending_eq_nothing rfl⟩
  exact h.inv (P := fun v => v.draft.WellNested target.package) (fun _ _ hv => hv.handle _)
    (fun _ _ hv => ⟨hv.package_eq, hv.nested, hv.visible, hv.header⟩) hfresh

/-- The header waits for a name behind a keyword and a gap. -/
theorem carries_keyword_gap {keyword : String} {gap : List Char} (hnone : h.word = "")
    (hdot : h.lastCode? ≠ some '.') (hkeyword : isDeclarationKeyword keyword = true)
    (hgap : Gap gap) (hne : gap ≠ []) :
    ∃ h', h'.Awaits ∧ h'.word = "" ∧ Carries h .normal (keyword.toList ++ gap) h' .normal := by
  obtain ⟨h', hawaits, hended, hcarries⟩ := carries_gap hgap
    (Header.awaits_withWord hdot hkeyword) fun hnil => absurd hnil hne
  exact ⟨h', hawaits, hended,
    (carries_word hnone (isWord_of_isDeclarationKeyword hkeyword)).trans hcarries⟩

/-- **Every declaration names its block.** -/
theorem Reaches.opens_declared (hstart : start visible target companions features = .ok u)
    (htarget : target.Obtainable) (h : Reaches u history v) (hok : v.draft.isPoisoned = false)
    (hmark : v.lexer.inReference = false) (hnormal : v.lexer.state = .normal)
    (hword : v.draft.header.word = "") (hdot : v.draft.header.lastCode? ≠ some '.')
    {keyword name : String} {gap stream tail : List Char}
    (hkeyword : isDeclarationKeyword keyword = true) (hgap : Gap gap) (hne : gap ≠ [])
    (hname : isIdentifier name = true) (hrecord : name ≠ "record")
    (hstream : NameStream (v.appendList (keyword.toList ++ gap)).state name stream)
    (htail : HeaderTail tail) :
    ∃ w x q, v.appendList (keyword.toList ++ gap ++ stream ++ tail) = .ok w ∧
      w.append '{' = .ok x ∧
      q = v.draft.enclosingType?.elim ⟨target.package, [name]⟩
        (fun outer => ⟨outer.package, outer.path ++ [name]⟩) ∧ q.Valid ∧
      x.draft.blocks = ⟨.type q, v.draft.depth + 1⟩ :: v.draft.blocks ∧
      x.draft.shadows = ⟨v.draft.depth, q⟩ :: v.draft.shadows ∧
      x.scope = (if v.draft.blocks.all (·.kind.isType) then (w.scope.declare q).2 else w.scope) ∧
      (v.draft.blocks.all (·.kind.isType) = true → w.scope.binding? name = none →
        x.scope.binding? name = some ⟨q, false⟩) ∧
      (MarkFree (gap ++ stream) → w.scope = v.scope) := by
  have hv := h.atRest hstart hok hmark
  obtain ⟨h₁, hawaits, hnone, hcarries⟩ := carries_keyword_gap hword hdot hkeyword hgap hne
  obtain ⟨text₁, scope₁, htaken₁, hscope₁⟩ := hcarries v hv rfl hnormal
  rw [htaken₁] at hstream
  have hg := hv.carried text₁ scope₁ h₁ .normal
  obtain ⟨text₂, scope₂, h₂, htaken₂, hnamed₂, hscope₂⟩ :=
    hg.appendList_nameStream rfl hstream hawaits hnone hname hrecord
  obtain ⟨h₃, s, hcarries₃, hnamed, hbrace⟩ := carries_tail htail hnamed₂
  obtain ⟨text₃, scope₃, htaken₃, hscope₃⟩ :=
    hcarries₃ _ (hg.carried text₂ scope₂ h₂ .normal) rfl rfl
  have hw : v.appendList (keyword.toList ++ gap ++ stream ++ tail) =
      .ok (v.carried text₃ scope₃ h₃ s) := by
    rw [appendList_append, appendList_append, htaken₁, Outcome.andThen_ok, htaken₂,
      Outcome.andThen_ok, htaken₃]
    rfl
  have hopened := (hv.carried text₃ scope₃ h₃ s).append_openBrace hbrace
  obtain ⟨later, hreaches⟩ := h.appendList (keyword.toList ++ gap ++ stream ++ tail)
  rw [hw] at hreaches
  have hnested := hreaches.wellNested hstart
  have hsome : (v.carried text₃ scope₃ h₃ s).draft.header.openBlock.1 = some name :=
    Header.openBlock_fst_eq_some_iff.2 hnamed
  obtain ⟨q, hq⟩ := hnested.exists_declared
    (fun s hs => htarget.isIdentifier_of_mem_package hs) hsome
  rw [Draft.openBlock_of_declared hsome hq] at hopened
  refine ⟨_, _, q, hw, hopened, ?_, Draft.valid_of_declared hq, rfl, rfl, rfl,
    fun hmember hfree => ?_, fun hfree => ?_⟩
  · have hpackage : v.draft.package = target.package := hnested.package_eq
    rw [Draft.eq_of_declared hq, ← hpackage]
    rfl
  · have hscope : (if v.draft.blocks.all (·.kind.isType) then (scope₃.declare q).2 else scope₃) =
        (scope₃.declare q).2 := if_pos hmember
    have hfree' : scope₃.binding? name = none := hfree
    refine (congrArg (Scope.binding? · name) hscope).trans ?_
    rw [Scope.binding?_declare, hfree', Option.none_or, if_pos (Draft.simpleName_of_declared hq)]
  · obtain ⟨hgapFree, hstreamFree⟩ := markFree_append.1 hfree
    have hkeywordFree : MarkFree keyword.toList := markFree_of_isNamePart fun c =>
      isNamePart_of_mem_word (isWord_of_isDeclarationKeyword hkeyword)
    exact (hscope₃ htail.markFree).trans
      ((hscope₂ hstreamFree).trans (hscope₁ (hkeywordFree.append hgapFree)))

/-- An enumeration in a class, with a reference in the comment before its name and a class literal
behind it. -/
theorem Reaches.opens_declared_nested :
    ∃ u history v w x, start Visibility.nothing ⟨["com", "example"], ["Widget"]⟩ [] .empty = .ok u ∧
      Reaches u history v ∧ v.text = preamble ⟨["com", "example"], ["Widget"]⟩ ++ "class A \x7b" ∧
      v.appendList "enum/*\uE000java.util:Map\uE001*/B implements C<Map.class>".toList = .ok w ∧
      w.append '{' = .ok x ∧
      x.draft.blocks =
        [⟨.type ⟨["com", "example"], ["A", "B"]⟩, 2⟩, ⟨.type ⟨["com", "example"], ["A"]⟩, 1⟩] ∧
      x.scope.binding? "B" = some ⟨⟨["com", "example"], ["A", "B"]⟩, false⟩ := by
  let target : TypeName := ⟨["com", "example"], ["Widget"]⟩
  let u := fresh target .empty (Scope.empty.claim target true)
  let v := (u.appendList "class A \x7b".toList).state
  let payload := "java.util:Map".toList
  let gap := '/' :: '*' :: (([] ++ ((StreamPiece.reference payload).stream ++ [])) ++ ['*', '/'])
  let tail := " implements C<Map.class>".toList
  have hstart : start Visibility.nothing target [] .empty = .ok u :=
    start_nothing target .empty (by decide)
  obtain ⟨history, hreaches⟩ : ∃ history, Reaches u (history ++ []) v :=
    (Reaches.refl (u := u)).appendList _
  have hempty : ¬ ['*', '/'] <:+: [] := by decide
  have hparse : TypeName.parse (String.ofList payload) = .ok ⟨["java", "util"], ["Map"]⟩ := by
    decide +kernel
  have hremark : Remark ['*', '/'] ([] ++ ((StreamPiece.reference payload).stream ++ [])) :=
    .reference markFree_nil hempty (by decide) hparse (.text markFree_nil hempty)
  have hgap : Gap gap := .blockComment hremark .nil
  have htail : HeaderTail tail := by
    have hplaces : ∀ n < (lexemes tail).length + 1, ∀ keyword ∈ declarationKeywords,
        codeWord keyword <+: (lexemes tail).drop n →
          lastShown? ((lexemes tail).take n) = some '.' := by
      decide +kernel
    have hapart : ∀ c ∈ tail.head?, isIdentifierPart c = false := by
      have hhead : tail.head? = some ' ' := by decide +kernel
      rintro c hc
      obtain rfl : ' ' = c := Option.some.inj (hhead.symm.trans hc)
      decide +kernel
    refine ⟨by decide +kernel, hapart, by decide +kernel, by decide +kernel, ?_⟩
    intro earlier keyword later hsplit hkeyword _
    have hle : earlier.length ≤ (lexemes tail).length := by
      rw [hsplit, List.append_assoc, List.length_append]
      exact Nat.le_add_right _ _
    have hplace := hplaces earlier.length (Nat.lt_succ_of_le hle) keyword
      (List.contains_iff_mem.1 hkeyword)
    rw [hsplit, List.append_assoc, List.drop_left, List.take_left] at hplace
    exact hplace (List.prefix_append _ _)
  have hkeyword : isDeclarationKeyword "enum" = true := by decide +kernel
  have hname : isIdentifier "B" = true := by decide +kernel
  obtain ⟨w, x, q, hw, hx, hq, -, hblocks, -, -, hbound, -⟩ := hreaches.opens_declared hstart
    (TypeName.Valid.obtainable (by decide)) (by decide +kernel) (by decide +kernel)
    (by decide +kernel) (by decide +kernel) (by decide +kernel) hkeyword hgap
    (List.cons_ne_nil _ _) hname (by decide) .plain htail
  have hstream : "enum/*\uE000java.util:Map\uE001*/B implements C<Map.class>".toList =
      "enum".toList ++ gap ++ "B".toList ++ tail := by
    decide +kernel
  have hstate : (v.appendList ("enum".toList ++ gap ++ "B".toList ++ tail)).state = w :=
    congrArg Outcome.state hw
  have hfree : w.scope.binding? "B" = none := by
    rw [← hstate]
    decide +kernel
  have houter : v.draft.enclosingType? = some ⟨["com", "example"], ["A"]⟩ := by decide +kernel
  have hopen : v.draft.blocks = [⟨.type ⟨["com", "example"], ["A"]⟩, 1⟩] := by decide +kernel
  rw [houter] at hq
  subst hq
  refine ⟨u, _, v, w, x, hstart, hreaches, by decide +kernel, hstream ▸ hw, hx, ?_,
    hbound (by decide +kernel) hfree⟩
  rw [hblocks, Draft.depth, hopen]
  rfl

end CompilationUnit
end JavaUnit
