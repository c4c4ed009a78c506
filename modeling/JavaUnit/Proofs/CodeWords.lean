import JavaUnit.Proofs.BlockNesting
import JavaUnit.Proofs.LexicalGrammar
import JavaUnit.Proofs.NameReading

/-!
# The header goes by words

The header before a block is told of the code character by character, and keeps one word, one
character and a flag.  Here the same is said of the lexemes of a text.  A word is a run of
identifier parts from the first that can start one (`inWord`), and it is whole if nothing before it
belongs to it and nothing after it does (`Whole`).

`Header.Tracks` is what the header knows.  With `done` read and a word in progress, the word is what
comes after `done`, the character it keeps is the last that it was shown (`lastShown?`), and the
flag says whether that was a dot where the word started.  A lexeme either goes on with the word or
ends it, and only then can it do anything to the declaration in progress.  So what is to be shown of
declarations is shown word by word (`Header.Tracks.inv`).

That the header of a unit is led by what is streamed to it is `AtRest.of_appendList`.
-/

namespace JavaUnit

open Unicode

/-! ## Words among lexemes -/

namespace Lexeme

/-- Whether the lexeme is a character of code that can go on with a word. -/
def isPart : Lexeme → Bool
  | code c => isIdentifierPart c
  | _ => false

/-- Whether the lexeme is a character of code that can start a word. -/
def isStart : Lexeme → Bool
  | code c => isIdentifierStart c
  | _ => false

theorem isStart_of_isPart {l : Lexeme} (h : l.isPart = false) : l.isStart = false := by
  refine Bool.eq_false_iff.2 fun hstart => ?_
  cases l with
  | code c =>
      have hpart : isIdentifierPart c = true := isIdentifierPart_of_start hstart
      have hnot : isIdentifierPart c = false := h
      rw [hnot] at hpart
      exact absurd hpart (by decide)
  | _ => exact absurd hstart (by simp [isStart])

/-- What the header keeps of the lexeme.  Of a comment it is shown the slash that opens it, and of a
literal nothing. -/
def shown? : Lexeme → Option Char
  | code c => if isWhiteSpace c then none else some c
  | lineComment _ | blockComment _ => some '/'
  | literal _ _ => none

/-- Whether the lexeme ends what a block could belong to. -/
def ends : Lexeme → Bool
  | code c => c == ';' || c == '{' || c == '}'
  | _ => false

/-- Whether the lexeme can stand between a keyword and a name.  White space and comments can, and so
can a slash, as it could open a comment, and a literal. -/
def passes : Lexeme → Bool
  | code c => isWhiteSpace c || c == '/'
  | _ => true

/-- Whether the lexeme puts an end to a declaration that has come this far. -/
def cancels (pending : Pending) (l : Lexeme) : Bool :=
  l.ends || (pending == .keyword && !l.passes)

theorem cancels_eq_false {l : Lexeme} (hends : l.ends = false) (hpasses : l.passes = true)
    (pending : Pending) : l.cancels pending = false := by
  rw [cancels, hends, hpasses]
  simp

end Lexeme

/-- Whether the text is spelled like an identifier, be it a keyword or not. -/
def isWord (word : String) : Bool :=
  match word.toList with
  | [] => false
  | c :: rest => isIdentifierStart c && rest.all isIdentifierPart

/-- The lexemes of a word in code. -/
def codeWord (word : String) : List Lexeme :=
  word.toList.map .code

/-- Whether a word is in progress behind the lexemes. -/
def inWord (ls : List Lexeme) : Bool :=
  ls.foldl (fun inside l => if inside then l.isPart else l.isStart) false

/-- The last character that the header keeps of the lexemes. -/
def lastShown? (ls : List Lexeme) : Option Char :=
  (ls.filterMap Lexeme.shown?).getLast?

/-- What stands between these lexemes is a word as a whole. -/
structure Whole (before after : List Lexeme) : Prop where
  started : inWord before = false
  ended : ∀ l ∈ after.head?, l.isPart = false

variable {ls done : List Lexeme} {l : Lexeme} {c : Char} {word : String}

theorem exists_of_isWord (h : isWord word = true) :
    ∃ c cs, word.toList = c :: cs ∧ isIdentifierStart c = true ∧
      ∀ d ∈ cs, isIdentifierPart d = true := by
  unfold isWord at h
  cases hcs : word.toList with
  | nil => simp [hcs] at h
  | cons c cs =>
      simp only [hcs, Bool.and_eq_true, List.all_eq_true] at h
      exact ⟨c, cs, rfl, h⟩

theorem isIdentifierPart_of_mem_word (h : isWord word = true) (hc : c ∈ word.toList) :
    isIdentifierPart c = true := by
  obtain ⟨d, cs, hcs, hd, hparts⟩ := exists_of_isWord h
  rw [hcs, List.mem_cons] at hc
  rcases hc with rfl | hc
  · exact isIdentifierPart_of_start hd
  · exact hparts c hc

theorem isWord_of_isIdentifier (h : isIdentifier word = true) : isWord word = true := by
  unfold isIdentifier at h
  unfold isWord
  cases hcs : word.toList with
  | nil => simp [hcs] at h
  | cons c cs =>
      rw [hcs] at h
      simp only [Bool.and_eq_true] at h ⊢
      exact h.1

theorem isDeclarationKeyword_cases (h : isDeclarationKeyword word = true) :
    word = "class" ∨ word = "interface" ∨ word = "enum" ∨ word = "record" := by
  have hmem : word ∈ declarationKeywords := List.contains_iff_mem.1 h
  simpa only [declarationKeywords, List.mem_cons, List.not_mem_nil, or_false] using hmem

theorem isWord_of_isDeclarationKeyword (h : isDeclarationKeyword word = true) :
    isWord word = true := by
  rcases isDeclarationKeyword_cases h with rfl | rfl | rfl | rfl <;> decide +kernel

@[simp] theorem codeWord_empty : codeWord "" = [] := rfl

theorem codeWord_push (word : String) (c : Char) :
    codeWord (word.push c) = codeWord word ++ [.code c] := by
  simp [codeWord]

theorem inWord_concat (ls : List Lexeme) (l : Lexeme) :
    inWord (ls ++ [l]) = if inWord ls then l.isPart else l.isStart := by
  rw [inWord, List.foldl_append]
  rfl

theorem lastShown?_append (ls ms : List Lexeme) :
    lastShown? (ls ++ ms) = (lastShown? ms).or (lastShown? ls) := by
  rw [lastShown?, List.filterMap_append, List.getLast?_append]
  rfl

theorem lastShown?_concat (ls : List Lexeme) (l : Lexeme) :
    lastShown? (ls ++ [l]) = l.shown?.or (lastShown? ls) := by
  rw [lastShown?_append]
  cases hshown : l.shown? <;> simp [hshown, lastShown?]

theorem isWhiteSpace_of_isIdentifierPart (hc : isIdentifierPart c = true) :
    isWhiteSpace c = false := by
  refine isWhiteSpace_of_isNamePart ?_
  rw [isNamePart, hc, Bool.true_or]

theorem Lexeme.shown?_of_isIdentifierPart (hc : isIdentifierPart c = true) :
    (Lexeme.code c).shown? = some c := by
  simp [shown?, isWhiteSpace_of_isIdentifierPart hc]

/-- The header keeps the last character of a word. -/
theorem lastShown?_codeWord (hword : isWord word = true) :
    lastShown? (codeWord word) = word.toList.getLast? := by
  have hshown {cs : List Char} (hcs : ∀ c ∈ cs, isIdentifierPart c = true) :
      (cs.map Lexeme.code).filterMap Lexeme.shown? = cs := by
    induction cs with
    | nil => rfl
    | cons c cs ih =>
        rw [List.map_cons, List.filterMap_cons,
          Lexeme.shown?_of_isIdentifierPart (hcs c List.mem_cons_self)]
        exact congrArg (c :: ·) (ih fun d hd => hcs d (List.mem_cons_of_mem _ hd))
  rw [lastShown?, codeWord, hshown fun c hc => isIdentifierPart_of_mem_word hword hc]

theorem getLast?_ne_dot_of_isWord (hword : isWord word = true) :
    ∃ c, word.toList.getLast? = some c ∧ c ≠ '.' := by
  obtain ⟨d, cs, hcs, -⟩ := exists_of_isWord hword
  obtain ⟨c, hc⟩ : ∃ c, word.toList.getLast? = some c := by
    rw [hcs]
    exact ⟨_, List.getLast?_cons⟩
  refine ⟨c, hc, ?_⟩
  rintro rfl
  have hpart := isIdentifierPart_of_mem_word hword (List.mem_of_getLast? hc)
  rw [isIdentifierPart_dot] at hpart
  exact absurd hpart (by decide)

/-- A word that nothing before belongs to is in progress behind it. -/
theorem inWord_codeWord (hls : inWord ls = false) (hword : isWord word = true) :
    inWord (ls ++ codeWord word) = true := by
  have hgoes {cs : List Char} (hcs : ∀ c ∈ cs, isIdentifierPart c = true) :
      (cs.map Lexeme.code).foldl (fun inside l => if inside then l.isPart else l.isStart) true =
        true := by
    induction cs with
    | nil => rfl
    | cons c cs ih =>
        rw [List.map_cons, List.foldl_cons, if_pos rfl, Lexeme.isPart, hcs c List.mem_cons_self]
        exact ih fun d hd => hcs d (List.mem_cons_of_mem _ hd)
  obtain ⟨c, cs, hcs, hc, hparts⟩ := exists_of_isWord hword
  have hls' : ls.foldl (fun inside l => if inside then l.isPart else l.isStart) false = false := hls
  rw [inWord, List.foldl_append, hls', codeWord, hcs, List.map_cons, List.foldl_cons,
    if_neg (by decide), Lexeme.isStart, hc]
  exact hgoes hparts

/-! ## The header over lexemes -/

namespace Header

/-- Takes note of a lexeme. -/
def see (h : Header) : Lexeme → Header
  | .code '{' => h.openBlock.2
  | .code '}' => h.closeBlock
  | .code c => h.read c
  | .lineComment _ | .blockComment _ => (h.read '/').interrupt
  | .literal _ _ => h.interrupt

/-- Takes note of a character by what it is.  The characters of a reference are collected first. -/
def note (h : Header) : Event → Header
  | .text c .code => h.read c
  | .text _ _ | .referenceStart _ => h.interrupt
  | .blockOpen => h.openBlock.2
  | .blockClose => h.closeBlock
  | .referenceChar _ | .referenceEnd => h

variable {h h₀ : Header}

theorem see_code (hopen : c ≠ '{') (hclose : c ≠ '}') (h : Header) :
    h.see (.code c) = h.read c := by
  unfold see
  split <;> simp_all

theorem foldl_note_of_ne_code {region : Region} (hregion : region ≠ .code)
    (hended : h.interrupt = h) (cs : List Char) :
    (cs.map (Event.text · region)).foldl note h = h := by
  induction cs with
  | nil => rfl
  | cons c cs ih =>
      have hnote : h.note (.text c region) = h := by
        cases region with
        | code => exact absurd rfl hregion
        | literal => exact hended
        | comment => exact hended
      rw [List.map_cons, List.foldl_cons, hnote, ih]

/-- The characters of a lexeme come to what the lexeme is. -/
theorem foldl_note_events (h : Header) (l : Lexeme) : l.events.foldl note h = h.see l := by
  have hended (h : Header) : h.interrupt.interrupt = h.interrupt := endWord_endWord h
  cases l with
  | code c =>
      by_cases hopen : c = '{'
      · rw [hopen]
        rfl
      · by_cases hclose : c = '}'
        · rw [hclose]
          rfl
        · rw [see_code hopen hclose, Lexeme.events, if_neg hopen, if_neg hclose]
          rfl
  | lineComment body =>
      rw [Lexeme.events, List.foldl_cons, List.foldl_cons]
      exact foldl_note_of_ne_code (by decide) (hended _) body
  | blockComment body =>
      rw [Lexeme.events, List.foldl_cons, List.foldl_cons]
      exact foldl_note_of_ne_code (by decide) (hended _) body
  | literal quote body =>
      rw [Lexeme.events, List.foldl_cons]
      exact foldl_note_of_ne_code (by decide) (hended _) body

/-- The header goes by the lexemes of a text. -/
theorem foldl_note_normal (h : Header) (cs : List Char) :
    (LexState.normal.events cs).foldl note h = (lexemes cs).foldl see h := by
  rw [LexState.events_normal]
  induction lexemes cs generalizing h with
  | nil => rfl
  | cons l ls ih =>
      rw [List.flatMap_cons, List.foldl_append, foldl_note_events, ih, List.foldl_cons]

/-! ## One lexeme -/

@[simp] theorem lastCode?_endWord (h : Header) : h.endWord.lastCode? = h.lastCode? := by
  unfold endWord
  split
  · rfl
  · split
    · rfl
    · split
      · rfl
      · split <;> rfl

theorem endWord_of_word_eq_empty (hword : h.word = "") : h.endWord = h :=
  if_pos hword

theorem isIdentifierPart_of_continues (hc : h.continues c = true) : isIdentifierPart c = true := by
  unfold continues at hc
  split at hc
  · exact isIdentifierPart_of_start hc
  · exact hc

/-- A character that goes on with a word, or starts one. -/
theorem read_of_continues (hc : h.continues c = true) :
    h.read c =
      { h with
        word := h.word.push c
        afterDot := if h.word = "" then h.lastCode? == some '.' else h.afterDot
        lastCode? := some c } := by
  have hspace := isWhiteSpace_of_isIdentifierPart (isIdentifierPart_of_continues hc)
  simp [read, hc, hspace]

/-- A character between words. -/
theorem read_of_not_continues (hc : h.continues c = false) :
    h.read c =
      { h.endWord with
        lastCode? := if isWhiteSpace c then h.lastCode? else some c
        pending := if h.endWord.cancels c then .nothing else h.endWord.pending } := by
  rw [read, hc, ← lastCode?_endWord h]
  dsimp only
  cases h.endWord.cancels c <;> cases isWhiteSpace c <;> rfl

theorem see_code_of_continues (hc : h.continues c = true) : h.see (.code c) = h.read c := by
  have hpart := isIdentifierPart_of_continues hc
  have hopen : c ≠ '{' := ne_of_apply_ne isIdentifierPart (by rw [hpart]; decide +kernel)
  have hclose : c ≠ '}' := ne_of_apply_ne isIdentifierPart (by rw [hpart]; decide +kernel)
  exact see_code hopen hclose h

/-- A lexeme that does not go on with the word ends it.  The header keeps what it is shown of the
lexeme, and the declaration in progress ends if the lexeme cancels it. -/
theorem see_of_ended (hl : (if h.word = "" then l.isStart else l.isPart) = false) :
    h.see l =
      { h.endWord with
        lastCode? := l.shown?.or h.lastCode?
        pending := if l.cancels h.endWord.pending then .nothing else h.endWord.pending } := by
  have hslash : h.continues '/' = false := by
    unfold continues
    split <;> decide +kernel
  have hcomment : (h.read '/').interrupt =
      { h.endWord with lastCode? := some '/', pending := h.endWord.pending } := by
    rw [interrupt, endWord_of_word_eq_empty (by rw [read_of_not_continues hslash]; simp),
      read_of_not_continues hslash]
    simp [cancels, show isWhiteSpace '/' = false by decide +kernel]
  cases l with
  | code c =>
      have hc : h.continues c = false := hl
      by_cases hopen : c = '{'
      · subst hopen
        simp [see, openBlock, Lexeme.shown?, Lexeme.cancels, Lexeme.ends,
          show isWhiteSpace '{' = false by decide +kernel]
      · by_cases hclose : c = '}'
        · subst hclose
          simp [see, closeBlock, Lexeme.shown?, Lexeme.cancels, Lexeme.ends,
            show isWhiteSpace '}' = false by decide +kernel]
        · rw [see_code hopen hclose, read_of_not_continues hc]
          cases hspace : isWhiteSpace c <;>
            simp [Lexeme.shown?, Lexeme.cancels, Lexeme.ends, Lexeme.passes, cancels, hspace, hopen,
              hclose]
  | lineComment body =>
      rw [Lexeme.cancels_eq_false rfl rfl]
      exact hcomment
  | blockComment body =>
      rw [Lexeme.cancels_eq_false rfl rfl]
      exact hcomment
  | literal quote body =>
      rw [Lexeme.cancels_eq_false rfl rfl, ← lastCode?_endWord h]
      rfl

/-- A lexeme that is no part of a word ends whatever word is in progress. -/
theorem see_of_isPart_eq_false (hl : l.isPart = false) :
    h.see l =
      { h.endWord with
        lastCode? := l.shown?.or h.lastCode?
        pending := if l.cancels h.endWord.pending then .nothing else h.endWord.pending } := by
  refine see_of_ended ?_
  rw [hl, Lexeme.isStart_of_isPart hl]
  split <;> rfl

/-- Before such a lexeme the word may as well have ended. -/
theorem see_endWord (hl : l.isPart = false) : h.endWord.see l = h.see l := by
  rw [see_of_isPart_eq_false hl, see_of_isPart_eq_false hl, endWord_endWord, lastCode?_endWord]

/-! ## A row of lexemes -/

/-- What the header knows once it has seen `done` and the word in progress, from `h₀` on. -/
structure Tracks (h₀ : Header) (done : List Lexeme) (h : Header) : Prop where
  outside : inWord done = false
  inside : inWord (done ++ codeWord h.word) = false ↔ h.word = ""
  parts : ∀ c ∈ h.word.toList, isIdentifierPart c = true
  lastCode?_eq : h.lastCode? = (lastShown? (done ++ codeWord h.word)).or h₀.lastCode?
  afterDot_eq : h.word ≠ "" → h.afterDot = ((lastShown? done).or h₀.lastCode? == some '.')

theorem tracks_nil (hword : h₀.word = "") : Tracks h₀ [] h₀ where
  outside := rfl
  inside := by simp [hword, inWord]
  parts := by simp [hword]
  lastCode?_eq := by simp [hword, lastShown?]
  afterDot_eq := fun hne => absurd hword hne

/-- Whether a word is in progress, is what the header goes by. -/
theorem Tracks.inWord_concat (hh : Tracks h₀ done h) (l : Lexeme) :
    inWord (done ++ codeWord h.word ++ [l]) = if h.word = "" then l.isStart else l.isPart := by
  rw [JavaUnit.inWord_concat]
  by_cases hword : h.word = ""
  · rw [hh.inside.2 hword, if_pos hword]
    rfl
  · rw [Bool.of_not_eq_false (mt hh.inside.1 hword), if_neg hword]
    rfl

/-- A character goes on with the word, or starts one behind what is done. -/
theorem Tracks.goOn (hh : Tracks h₀ done h) (hc : h.continues c = true) :
    Tracks h₀ done (h.see (.code c)) := by
  have hpart := isIdentifierPart_of_continues hc
  have hshown := Lexeme.shown?_of_isIdentifierPart hpart
  rw [see_code_of_continues hc, read_of_continues hc]
  refine ⟨hh.outside, ?_, ?_, ?_, fun _ => ?_⟩
  · have hin : inWord (done ++ codeWord h.word ++ [.code c]) = true := by
      rw [hh.inWord_concat]
      exact hc
    rw [codeWord_push, ← List.append_assoc, hin]
    simp
  · intro d hd
    rw [String.toList_push, List.mem_append, List.mem_singleton] at hd
    rcases hd with hd | rfl
    · exact hh.parts d hd
    · exact hpart
  · rw [codeWord_push, ← List.append_assoc, lastShown?_concat, hshown]
    rfl
  · by_cases hword : h.word = ""
    · have hlast := hh.lastCode?_eq
      rw [hword, codeWord_empty, List.append_nil] at hlast
      rw [if_pos hword, hlast]
    · rw [if_neg hword]
      exact hh.afterDot_eq hword

/-- A lexeme that ends the word is done itself. -/
theorem Tracks.ended (hh : Tracks h₀ done h)
    (hl : inWord (done ++ codeWord h.word ++ [l]) = false) :
    Tracks h₀ (done ++ codeWord h.word ++ [l]) (h.see l) ∧ (h.see l).word = "" ∧
      (h.see l).pending =
        if l.cancels h.endWord.pending then .nothing else h.endWord.pending := by
  have hends := hl
  rw [hh.inWord_concat] at hends
  rw [see_of_ended hends]
  have hword : h.endWord.word = "" := word_endWord h
  refine ⟨⟨hl, ?_, ?_, ?_, fun hne => absurd hword hne⟩, hword, rfl⟩
  · simpa [hword] using hl
  · simp
  · rw [hword, codeWord_empty, List.append_nil, lastShown?_concat, Option.or_assoc,
      ← hh.lastCode?_eq]

/-- **What holds of a header from the start and over every lexeme that ends a word.**  The lexemes
are those that are done and the word in progress, and `P` speaks of the first and of the declaration
in progress, which a word does not touch before it ends. -/
theorem Tracks.inv {P : List Lexeme → Pending → Prop} (hword : h₀.word = "")
    (hstart : P [] h₀.pending)
    (hstep : ∀ done h l, Tracks h₀ done h → P done h.pending →
      inWord (done ++ codeWord h.word ++ [l]) = false →
      P (done ++ codeWord h.word ++ [l])
        (if l.cancels h.endWord.pending then .nothing else h.endWord.pending))
    (ls : List Lexeme) :
    ∃ done, ls = done ++ codeWord (ls.foldl see h₀).word ∧ Tracks h₀ done (ls.foldl see h₀) ∧
      P done (ls.foldl see h₀).pending := by
  induction ls using List.reverseRecOn with
  | nil => exact ⟨[], by simp [hword], tracks_nil hword, hstart⟩
  | append_singleton ls l ih =>
      obtain ⟨done, hls, hh, hP⟩ := ih
      rw [List.foldl_append, List.foldl_cons, List.foldl_nil]
      generalize ls.foldl see h₀ = h at hls hh hP ⊢
      subst hls
      cases hin : inWord (done ++ codeWord h.word ++ [l]) with
      | false =>
          obtain ⟨hdone, hempty, hpending⟩ := hh.ended hin
          refine ⟨_, ?_, hdone, ?_⟩
          · rw [hempty, codeWord_empty, List.append_nil]
          · rw [hpending]
            exact hstep done h l hh hP hin
      | true =>
          rw [hh.inWord_concat] at hin
          cases l with
          | code c =>
              have hc : h.continues c = true := hin
              have hread : h.see (.code c) = h.read c := see_code_of_continues hc
              refine ⟨done, ?_, hh.goOn hc, ?_⟩
              · rw [hread, read_of_continues hc, codeWord_push, List.append_assoc]
              · rw [hread, read_of_continues hc]
                exact hP
          | lineComment body => simp [Lexeme.isStart, Lexeme.isPart] at hin
          | blockComment body => simp [Lexeme.isStart, Lexeme.isPart] at hin
          | literal quote body => simp [Lexeme.isStart, Lexeme.isPart] at hin

end Header

/-! ## The header of a unit -/

/-- An event makes of the header what the header notes.  The end of a reference is left out: what
that makes of the header depends on the spelling. -/
theorem Draft.header_take {d : Draft} {event : Event} (h : event ≠ .referenceEnd) :
    (d.take event).state.header = d.header.note event := by
  have htaken := d.taken event
  generalize d.take event = o at htaken ⊢
  cases htaken with
  | written c region => cases region <;> rfl
  | strayEnd => exact absurd rfl h
  | malformed => exact absurd rfl h
  | replaced => exact absurd rfl h
  | _ => rfl

theorem Draft.header_handle {d : Draft} {event : Event} (hok : d.failedAt? = none)
    (h : event ≠ .referenceEnd) : (d.handle event).state.header = d.header.note event := by
  obtain ⟨failure, hstate⟩ := state_handle hok event
  rw [hstate]
  exact header_take h

namespace CompilationUnit

variable {u v : CompilationUnit} {cs : List Char}

/-- **The header of a unit is led by what the characters are.**  A text without references that is
taken leaves the unit at rest. -/
theorem AtRest.of_appendList (hu : u.AtRest) (hfree : MarkFree cs) (h : u.appendList cs = .ok v) :
    v.AtRest ∧ v.lexer.state = u.lexer.state.after cs ∧
      v.draft.header = (u.lexer.state.events cs).foldl Header.note u.draft.header := by
  induction cs generalizing u with
  | nil =>
      obtain rfl : u = v := congrArg Outcome.state h
      exact ⟨hu, rfl, rfl⟩
  | cons c cs ih =>
      obtain ⟨hs, he, hfree⟩ := markFree_cons.1 hfree
      rw [appendList_cons, Outcome.andThen_eq_ok_iff] at h
      obtain ⟨hok, hrest⟩ := h
      have hatRest := (hu.append_plain hs he).2 hok
      have hclassify := hu.classify_plain hs he
      have hevent : (u.lexer.state.read c).1 ≠ .referenceEnd := by
        rcases u.lexer.state.read_cases c with ⟨h, -⟩ | ⟨h, -⟩ | ⟨region, h⟩
        · simp [h]
        · simp [h]
        · simp [h]
      have hheader : (u.append c).state.draft.header =
          u.draft.header.note (u.lexer.state.read c).1 := by
        rw [state_append, hclassify]
        exact Draft.header_handle hu.noFailure hevent
      have hstate : (u.append c).state.lexer.state = (u.lexer.state.read c).2 := by
        rw [state_append, hclassify]
      obtain ⟨hv, hafter, hnotes⟩ := ih hatRest hfree hrest
      rw [hstate] at hafter hnotes
      rw [hheader] at hnotes
      exact ⟨hv, hafter, hnotes⟩

/-- A text without references and without a brace in code is taken and written. -/
theorem AtRest.appendList_of_braces (hu : u.AtRest) (hfree : MarkFree cs)
    (hbraces : Event.braces (u.lexer.state.events cs) = []) :
    u.appendList cs =
      .ok (u.written cs ((u.lexer.state.events cs).foldl Header.note u.draft.header)
        (u.lexer.state.after cs)) := by
  induction cs generalizing u with
  | nil =>
      rw [appendList_nil, LexState.events_nil, List.foldl_nil, LexState.after_nil, hu.written_nil]
  | cons c cs ih =>
      rw [← List.singleton_append, markFree_append] at hfree
      obtain ⟨region, hread⟩ : ∃ region, (u.lexer.state.read c).1 = .text c region := by
        rcases u.lexer.state.read_cases c with ⟨h, -⟩ | ⟨h, -⟩ | h
        · simp [Event.braces, h, Event.isBrace] at hbraces
        · simp [Event.braces, h, Event.isBrace] at hbraces
        · exact h
      have hfirst := hu.append_text hfree.1 (Prod.ext hread rfl)
      have hnote : (u.draft.writeChar c region).header = u.draft.header.note (.text c region) := by
        cases region <;> rfl
      rw [hnote] at hfirst
      have hrest : Event.braces ((u.lexer.state.read c).2.events cs) = [] := by
        rw [LexState.events_cons, hread] at hbraces
        exact hbraces
      have hsecond := ih (hu.written [c] (u.draft.header.note (.text c region))
        (u.lexer.state.read c).2) hfree.2 hrest
      have hboth := appendList_append_of_written hfirst hsecond
      rw [LexState.events_cons, hread]
      exact hboth

end CompilationUnit
end JavaUnit
