import JavaUnit.Proofs.CodeWords

/-!
# Whole words

The header sees one event at a time and keeps one word.  Which words it comes to see in a row of
events can be said without it.  Cut the row at everything that no word goes on with, and take from
each piece what is left of it from the first character on that can start a word: these are the words
(`Event.words`).  The header has no others, and it has them in the same order, the one in progress
being the last (`Header.wordsRead_eq`).

A word follows a dot if a dot is the last character of code before it, white space aside.  That is
looked up in the events here, whereas the header remembers one character and, from the start of a
word on, what that was.  What follows a dot is passed over: the end of such a word leaves every
declaration as it is, and the end of any other word does not (`Header.passesOver_iff`).

References are left out.  Their characters are not shown to the header, and their spellings come to
it as wholes.
-/

namespace JavaUnit

open Unicode

/-! ## Words among events -/

namespace Event

/-- The character of code that the event is, if it is no brace. -/
def code? : Event → Option Char
  | text c .code => some c
  | _ => none

/-- Whether a word can go on with the event. -/
def isPart (e : Event) : Bool :=
  e.code?.any isIdentifierPart

/-- Whether a word can start with the event. -/
def isStart (e : Event) : Bool :=
  e.code?.any isIdentifierStart

/-- The character of code that the event is, unless it is white space. -/
def shown? : Event → Option Char
  | text c .code => if isWhiteSpace c then none else some c
  | blockOpen => some '{'
  | blockClose => some '}'
  | _ => none

/-- The last character of code among the events, braces included and white space left out. -/
def lastShown? (es : List Event) : Option Char :=
  (es.filterMap shown?).getLast?

/-- Whether the header is told of the event before anything is known of a spelling. -/
def isNoted : Event → Bool
  | referenceChar _ | referenceEnd => false
  | _ => true

/-- The events, each behind all those that come before it. -/
def placed (past : List Event) : List Event → List (List Event × Event)
  | [] => []
  | e :: es => (past, e) :: placed (past ++ [e]) es

/-- A word in code, and whether it is passed over. -/
structure Word where
  text : String
  passedOver : Bool
  deriving DecidableEq, Repr

/-- The characters of code in a row. -/
def spelled (piece : List (List Event × Event)) : String :=
  String.ofList (piece.filterMap fun e => e.2.code?)

/-- The word in a piece of the events, from the first character on that can start one.  It is passed
over if the last character of code before it is a dot. -/
def wordOf? (piece : List (List Event × Event)) : Option Word :=
  match piece.dropWhile (!·.2.isStart) with
  | [] => none
  | (past, e) :: rest => some ⟨spelled ((past, e) :: rest), lastShown? past == some '.'⟩

/-- The words of the events: cut at all that no word goes on with, one from each piece that has
one. -/
def words (es : List Event) : List Word :=
  ((placed [] es).splitOnP (!·.2.isPart)).filterMap wordOf?

variable {e : Event} {past : List Event}

theorem isPart_of_isStart (h : e.isStart = true) : e.isPart = true := by
  rw [isStart, Option.any_eq_true] at h
  obtain ⟨c, hc, hstart⟩ := h
  rw [isPart, hc]
  exact isIdentifierPart_of_start hstart

theorem eq_text_of_isPart (h : e.isPart = true) :
    ∃ c, e = .text c .code ∧ isIdentifierPart c = true := by
  rw [isPart, Option.any_eq_true] at h
  obtain ⟨c, hc, hpart⟩ := h
  unfold code? at hc
  split at hc
  · obtain rfl := Option.some.inj hc
    exact ⟨_, rfl, hpart⟩
  · exact absurd hc (by simp)

theorem lastShown?_concat (past : List Event) (e : Event) :
    lastShown? (past ++ [e]) = e.shown?.or (lastShown? past) := by
  rw [lastShown?, List.filterMap_append, List.getLast?_append]
  cases hshown : e.shown? <;> simp [hshown, lastShown?]

/-- What comes before the first start in a piece is no part of its word. -/
theorem wordOf?_cons_of_not_isStart (h : e.isStart = false) (piece : List (List Event × Event)) :
    wordOf? ((past, e) :: piece) = wordOf? piece := by
  rw [wordOf?, List.dropWhile_cons_of_pos (by simpa using h)]
  rfl

theorem wordOf?_cons_of_isStart (h : e.isStart = true) (piece : List (List Event × Event)) :
    wordOf? ((past, e) :: piece) =
      some ⟨spelled ((past, e) :: piece), lastShown? past == some '.'⟩ := by
  rw [wordOf?, List.dropWhile_cons_of_neg (by simpa using h)]

end Event

namespace Header

open Event

variable {h : Header} {e : Event} {c : Char}

/-! ## Words that are passed over -/

/-- The end of the word in progress leaves the declaration as it is, whatever that may be. -/
def PassesOver (h : Header) : Prop :=
  ∀ pending, ({ h with pending } : Header).endWord.pending = pending

/-- A word is passed over if it follows a dot, and not otherwise: a keyword has something to say
where nothing is pending, and any other word where a keyword is. -/
theorem passesOver_iff : h.PassesOver ↔ h.word = "" ∨ h.afterDot = true := by
  constructor
  · intro hpasses
    by_contra hnot
    obtain ⟨hword, hdot⟩ := not_or.1 hnot
    have hends := hpasses (if isDeclarationKeyword h.word then .nothing else .keyword)
    unfold endWord at hends
    rw [if_neg hword, if_neg hdot] at hends
    by_cases hkeyword : isDeclarationKeyword h.word = true
    · simp [hkeyword] at hends
    · by_cases hidentifier : isIdentifier h.word = true <;>
        simp [hkeyword, hidentifier] at hends
  · rintro (hword | hdot) pending
    · rw [endWord, if_pos hword]
    · by_cases hword : h.word = "" <;> simp [endWord, hword, hdot]

instance (h : Header) : Decidable h.PassesOver :=
  decidable_of_iff _ passesOver_iff.symm

theorem decide_passesOver (hword : h.word ≠ "") : decide h.PassesOver = h.afterDot := by
  have hiff : h.PassesOver ↔ h.afterDot = true := passesOver_iff.trans (or_iff_right hword)
  cases hdot : h.afterDot <;> simp [hiff, hdot]

/-! ## One event -/

/-- Whether the word in progress goes on with the event, or one starts with it. -/
def goesOn (h : Header) (e : Event) : Bool :=
  if h.word = "" then e.isStart else e.isPart

/-- No word starts with what no word goes on with. -/
theorem goesOn_eq_false (hpart : e.isPart = false) : h.goesOn e = false := by
  unfold goesOn
  split
  · refine Bool.eq_false_iff.2 fun hstart => ?_
    rw [isPart_of_isStart hstart] at hpart
    exact absurd hpart (by decide)
  · exact hpart

/-- An event that is part of a word is read as a character, and nothing becomes of the
declaration. -/
theorem note_of_goesOn (hgoes : h.goesOn e = true) :
    ∃ c, e = .text c .code ∧
      h.note e =
        { h with
          word := h.word.push c
          afterDot := if h.word = "" then h.lastCode? == some '.' else h.afterDot
          lastCode? := some c } := by
  have hpart : e.isPart = true := by
    by_contra hnot
    rw [goesOn_eq_false (Bool.eq_false_iff.2 hnot)] at hgoes
    exact absurd hgoes (by decide)
  obtain ⟨c, rfl, -⟩ := eq_text_of_isPart hpart
  exact ⟨c, rfl, read_of_continues hgoes⟩

/-- Any other event that the header is told of ends the word.  Of the declaration that leaves
nothing, or what the end of the word made of it. -/
theorem note_of_not_goesOn (hnoted : e.isNoted = true) (hgoes : h.goesOn e = false) :
    (h.note e).word = "" ∧
      ((h.note e).pending = h.endWord.pending ∨ (h.note e).pending = .nothing) := by
  cases e with
  | text c region =>
      cases region with
      | code =>
          have hnote : h.note (.text c .code) = _ := read_of_not_continues hgoes
          rw [hnote]
          refine ⟨word_endWord h, ?_⟩
          dsimp only
          split
          · exact .inr rfl
          · exact .inl rfl
      | literal => exact ⟨word_endWord h, .inl rfl⟩
      | comment => exact ⟨word_endWord h, .inl rfl⟩
  | blockOpen => exact ⟨word_endWord h, .inr rfl⟩
  | blockClose => exact ⟨word_endWord h, .inr rfl⟩
  | referenceStart region => exact ⟨word_endWord h, .inl rfl⟩
  | referenceChar c => exact absurd hnoted Bool.false_ne_true
  | referenceEnd => exact absurd hnoted Bool.false_ne_true

/-- An event that ends no word leaves the declaration as it is.  One that ends a word leaves it as
the word did, or puts an end to it. -/
theorem pending_note (hnoted : e.isNoted = true) :
    (h.note e).pending =
        (if (h.note e).word = "" then h.endWord.pending else h.pending) ∨
      (h.note e).word = "" ∧ (h.note e).pending = .nothing := by
  cases hgoes : h.goesOn e with
  | true =>
      obtain ⟨c, rfl, hnote⟩ := note_of_goesOn hgoes
      have hne : h.word.push c ≠ "" := by simp
      rw [hnote]
      exact .inl (if_neg hne).symm
  | false =>
      obtain ⟨hword, hpending⟩ := note_of_not_goesOn hnoted hgoes
      rw [if_pos hword]
      exact hpending.imp id fun hnothing => ⟨hword, hnothing⟩

/-- No word is in progress where the part of one leaves none: it would have gone on. -/
theorem word_eq_empty_of_isPart (hpart : e.isPart = true) (hended : (h.note e).word = "") :
    h.word = "" := by
  by_contra hword
  have hgoes : h.goesOn e = true := by rw [goesOn, if_neg hword, hpart]
  obtain ⟨c, -, hnote⟩ := note_of_goesOn hgoes
  rw [hnote] at hended
  exact absurd hended (by simp)

/-- The header remembers the last character of code that is no white space. -/
theorem lastCode?_note (hnoted : e.isNoted = true) :
    (h.note e).lastCode? = e.shown?.or h.lastCode? := by
  cases e with
  | text c region =>
      cases region with
      | code =>
          cases hc : h.continues c with
          | true =>
              have hspace := isWhiteSpace_of_isIdentifierPart (isIdentifierPart_of_continues hc)
              show (h.read c).lastCode? = (if isWhiteSpace c then none else some c).or h.lastCode?
              rw [read_of_continues hc, hspace]
              rfl
          | false =>
              show (h.read c).lastCode? = (if isWhiteSpace c then none else some c).or h.lastCode?
              rw [read_of_not_continues hc]
              cases isWhiteSpace c <;> rfl
      | literal => exact lastCode?_endWord h
      | comment => exact lastCode?_endWord h
  | blockOpen => rfl
  | blockClose => rfl
  | referenceStart region => exact lastCode?_endWord h
  | referenceChar c => exact absurd hnoted Bool.false_ne_true
  | referenceEnd => exact absurd hnoted Bool.false_ne_true

theorem NamesType.note (hnames : h.NamesType) (e : Event) : (h.note e).NamesType := by
  cases e with
  | text c region =>
      cases region with
      | code => exact hnames.read c
      | literal => exact hnames.endWord
      | comment => exact hnames.endWord
  | blockOpen => exact namesType_of_pending_eq_nothing rfl
  | blockClose => exact namesType_of_pending_eq_nothing rfl
  | referenceStart region => exact hnames.endWord
  | referenceChar c => exact hnames
  | referenceEnd => exact hnames

/-! ## A row of events -/

theorem NamesType.foldl_note (hnames : h.NamesType) (es : List Event) :
    (es.foldl Header.note h).NamesType := by
  induction es generalizing h with
  | nil => exact hnames
  | cons e es ih => exact ih (hnames.note e)

/-- The word in progress, if there is one. -/
def inProgress? (h : Header) : Option Word :=
  if h.word = "" then none else some ⟨h.word, h.PassesOver⟩

/-- The words that the header comes to see: those that the events end, and the one that is in
progress after them. -/
def wordsRead (h : Header) : List Event → List Word
  | [] => h.inProgress?.toList
  | e :: es =>
      (if (h.note e).word = "" then h.inProgress?.toList else []) ++ (h.note e).wordsRead es

/-- The first piece of the events to come goes on with the word in progress, or has a word of its
own. -/
def completed? (h : Header) (piece : List (List Event × Event)) : Option Word :=
  if h.word = "" then wordOf? piece else some ⟨h.word ++ spelled piece, h.afterDot⟩

theorem completed?_nil (h : Header) : h.completed? [] = h.inProgress? := by
  unfold completed? inProgress?
  by_cases hword : h.word = ""
  · rw [if_pos hword, if_pos hword]
    rfl
  · rw [if_neg hword, if_neg hword, decide_passesOver hword]
    simp [spelled]

/-- An event that is part of a word goes over from the piece to the header. -/
theorem completed?_cons_of_isPart {past : List Event} (hpart : e.isPart = true)
    (hnoted : e.isNoted = true) (hlast : h.lastCode? = Event.lastShown? past)
    (piece : List (List Event × Event)) :
    h.completed? ((past, e) :: piece) = (h.note e).completed? piece := by
  cases hgoes : h.goesOn e with
  | false =>
      have hword : h.word = "" := by
        by_contra hword
        rw [goesOn, if_neg hword, hpart] at hgoes
        exact absurd hgoes (by decide)
      rw [goesOn, if_pos hword] at hgoes
      rw [completed?, completed?, if_pos hword,
        if_pos (note_of_not_goesOn hnoted (by rw [goesOn, if_pos hword]; exact hgoes)).1,
        wordOf?_cons_of_not_isStart hgoes]
  | true =>
      obtain ⟨c, rfl, hnote⟩ := note_of_goesOn hgoes
      have hne : h.word.push c ≠ "" := by simp
      have hspelled : h.word.push c ++ spelled piece =
          h.word ++ spelled ((past, .text c .code) :: piece) :=
        String.toList_inj.1 (by simp [spelled, code?])
      rw [hnote, completed?, completed?, if_neg hne]
      dsimp only
      rw [hspelled]
      by_cases hword : h.word = ""
      · rw [goesOn, if_pos hword] at hgoes
        rw [if_pos hword, if_pos hword, wordOf?_cons_of_isStart hgoes, hword, hlast,
          String.empty_append]
      · rw [if_neg hword, if_neg hword]

/-- **The header comes to see the words of the pieces.**  The induction is on the events, which cut
off the pieces from the front; the word in progress belongs to the first of them. -/
theorem wordsRead_eq_of_splitOnP {past es : List Event} (hnoted : ∀ e ∈ es, e.isNoted = true)
    (hlast : h.lastCode? = Event.lastShown? past) {piece : List (List Event × Event)}
    {pieces : List (List (List Event × Event))}
    (hsplit : (placed past es).splitOnP (!·.2.isPart) = piece :: pieces) :
    h.wordsRead es = (h.completed? piece).toList ++ pieces.filterMap wordOf? := by
  induction es generalizing h past piece pieces with
  | nil =>
      rw [placed, List.splitOnP_nil] at hsplit
      obtain ⟨rfl, rfl⟩ := List.cons.inj hsplit
      rw [completed?_nil]
      simp [wordsRead]
  | cons e es ih =>
      have he := hnoted e List.mem_cons_self
      have hlast' : (h.note e).lastCode? = Event.lastShown? (past ++ [e]) := by
        rw [lastCode?_note he, Event.lastShown?_concat, hlast]
      obtain ⟨next, rest, hnext⟩ := List.exists_cons_of_ne_nil
        (List.splitOnP_ne_nil (!·.2.isPart) (placed (past ++ [e]) es))
      have hrest := ih (fun d hd => hnoted d (List.mem_cons_of_mem _ hd)) hlast' hnext
      rw [placed, List.splitOnP_cons_eq_if_modifyHead, hnext] at hsplit
      rw [wordsRead, hrest]
      cases hpart : e.isPart with
      | true =>
          simp only [hpart, Bool.not_true, Bool.false_eq_true, if_false,
            List.modifyHead_cons] at hsplit
          obtain ⟨rfl, rfl⟩ := List.cons.inj hsplit
          rw [completed?_cons_of_isPart hpart he hlast]
          split
          · rename_i hended
            rw [inProgress?, if_pos (word_eq_empty_of_isPart hpart hended)]
            rfl
          · rfl
      | false =>
          simp only [hpart, Bool.not_false, if_true] at hsplit
          obtain ⟨rfl, rfl⟩ := List.cons.inj hsplit
          have hended := (note_of_not_goesOn (h := h) he (goesOn_eq_false hpart)).1
          rw [if_pos hended, completed?_nil, completed?, if_pos hended, List.filterMap_cons]
          cases wordOf? next <;> rfl

theorem wordsRead_eq {es : List Event} (hnoted : ∀ e ∈ es, e.isNoted = true) :
    wordsRead {} es = words es := by
  obtain ⟨piece, pieces, hsplit⟩ := List.exists_cons_of_ne_nil
    (List.splitOnP_ne_nil (!·.2.isPart) (placed [] es))
  rw [wordsRead_eq_of_splitOnP hnoted rfl hsplit, words, hsplit, completed?, if_pos rfl,
    List.filterMap_cons]
  cases wordOf? piece <;> rfl

/-- **A header goes by whole words.**  Over any events but those of a reference, a fresh header
comes to see the words that the events are cut into, with the one in progress as the last, and
passes over exactly those that follow a dot.  Only the end of a word can advance a declaration: an
event that ends none leaves it as it is, and one that ends a word puts an end to it or leaves it as
the word did.  And the name that a declaration waits with is an identifier that announces none
itself. -/
theorem whole_words {es : List Event} (hnoted : ∀ e ∈ es, e.isNoted = true) :
    wordsRead {} es = words es ∧
      (∀ past e, past ++ [e] <+: es →
        ((past ++ [e]).foldl note {}).pending =
            (if ((past ++ [e]).foldl note {}).word = "" then (past.foldl note {}).endWord.pending
              else (past.foldl note {}).pending) ∨
          ((past ++ [e]).foldl note {}).word = "" ∧
            ((past ++ [e]).foldl note {}).pending = .nothing) ∧
      ∀ name, (es.foldl note {}).pending = .named name →
        isIdentifier name = true ∧ isDeclarationKeyword name = false := by
  refine ⟨wordsRead_eq hnoted, fun past e hprefix => ?_, ?_⟩
  · have he : e.isNoted = true := by
      obtain ⟨rest, rfl⟩ := hprefix
      exact hnoted e (by simp)
    rw [List.foldl_append, List.foldl_cons, List.foldl_nil]
    exact pending_note he
  · have hfresh : NamesType {} := namesType_of_pending_eq_nothing rfl
    exact NamesType.foldl_note hfresh es

/-- The `class` after the dot is passed over.  A comment keeps `sub` and `class` apart, and of
`2record` the part from the first letter on is a word. -/
theorem whole_words_keywords :
    let row (text : String) : List Event := text.toList.map (.text · .code)
    let es := row "Map . class sub" ++ .text '*' .comment :: row "class 2record" ++
      .blockOpen :: row "x"
    (∀ e ∈ es, e.isNoted = true) ∧
      wordsRead {} es =
        [⟨"Map", false⟩, ⟨"class", true⟩, ⟨"sub", false⟩, ⟨"class", false⟩, ⟨"record", false⟩,
          ⟨"x", false⟩] := by
  intro row es
  have hnoted : ∀ e ∈ es, e.isNoted = true := by decide +kernel
  refine ⟨hnoted, (whole_words hnoted).1.trans ?_⟩
  decide +kernel

end Header
end JavaUnit
