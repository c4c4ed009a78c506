import JavaUnit.Proofs.NameReading
import JavaUnit.Proofs.Spelling
import JavaUnit.Proofs.Stream
import JavaUnit.Unit.Imports

/-!
# Reading back what was written

The stream that a unit is written with and the text that comes out of it differ: where the
stream has a reference, the text has a spelling.  Read from scratch, the text has all the same
the braces that the stream had, in their order, and it ends where the unit says it is.

What is at stake is the character before a reference and the one after it.  A slash before a
reference was a division, and in the text the first character of the spelling says the same:
no character of a name can follow a slash or a star and make a mark of a comment of it, or end
a literal, and none is a brace (`LexState.read_of_isNamePart`).  Only right after a backslash
does the text read differently, as the backslash takes the first character of the spelling.

`Faithful` is what holds between stream and text all the way.  A plain character goes into
both (`Faithful.append_plain`), and a reference goes into one and its spelling into the other
(`Faithful.append_reference`).
-/

namespace JavaUnit

/-! ## Names in a text -/

namespace LexState

@[simp] theorem settle_settle (s : LexState) : s.settle.settle = s.settle := by
  cases s <;> rfl

theorem settle_ne_escaped {s : LexState} (hs : ∀ quote, s ≠ .escaped quote) (quote : Quote) :
    s.settle ≠ .escaped quote := by
  cases s with
  | escaped quote' => exact absurd rfl (hs quote')
  | normal => simp [settle]
  | slash => simp [settle]
  | lineComment => simp [settle]
  | blockComment => simp [settle]
  | blockCommentStar => simp [settle]
  | literal quote' => simp [settle]

/-- A character of a name is text wherever it stands.  It settles what was pending and leaves
nothing pending, unless it is escaped. -/
theorem read_of_isNamePart {s : LexState} (hs : ∀ quote, s ≠ .escaped quote) {c : Char}
    (hc : isNamePart c = true) : s.read c = (.text c s.region, s.settle) := by
  have hne {d : Char} (hd : d ∈ ['{', '}', '/', '*', '"', '\'', '\\', '\n',
      Reference.startMark, Reference.endMark]) : c ≠ d :=
    ne_of_isNamePart hc (isNamePart_eq_false d hd)
  have hcode : readCode c = (.text c .code, normal) := by
    have hopen : c ≠ '{' := hne (by simp)
    have hclose : c ≠ '}' := hne (by simp)
    have hslash : c ≠ '/' := hne (by simp)
    have hstring : c ≠ '"' := hne (by simp)
    have hchar : c ≠ '\'' := hne (by simp)
    unfold readCode
    split
    · exact absurd rfl hopen
    · exact absurd rfl hclose
    · exact absurd rfl hslash
    · exact absurd rfl hstring
    · exact absurd rfl hchar
    · rfl
  cases s with
  | normal => exact hcode
  | slash =>
      have hslash : c ≠ '/' := hne (by simp)
      have hstar : c ≠ '*' := hne (by simp)
      rw [read_slash hslash hstar]
      exact hcode
  | lineComment =>
      have hline : c ≠ '\n' := hne (by simp)
      simp [read, hline, region, settle]
  | blockComment =>
      have hstar : c ≠ '*' := hne (by simp)
      simp [read, hstar, region, settle]
  | blockCommentStar =>
      have hslash : c ≠ '/' := hne (by simp)
      have hstar : c ≠ '*' := hne (by simp)
      simp [read, hslash, hstar, region, settle]
  | literal quote =>
      have hbackslash : c ≠ '\\' := hne (by simp)
      have hmark : c ≠ quote.mark := by
        cases quote with
        | string => exact hne (by simp [Quote.mark])
        | char => exact hne (by simp [Quote.mark])
      simp [read, hbackslash, hmark, region, settle]
  | escaped quote => exact absurd rfl (hs quote)

variable {s : LexState} {cs : List Char}

/-- A name does to the lexical state what a reference does. -/
theorem after_of_isNamePart (hs : ∀ quote, s ≠ .escaped quote)
    (hcs : ∀ c ∈ cs, isNamePart c = true) (hne : cs ≠ []) : s.after cs = s.settle := by
  induction cs generalizing s with
  | nil => exact absurd rfl hne
  | cons c cs ih =>
      rw [after_cons, read_of_isNamePart hs (hcs c List.mem_cons_self)]
      by_cases hnil : cs = []
      · rw [hnil, after_nil]
      · rw [ih (settle_ne_escaped hs) (fun d hd => hcs d (List.mem_cons_of_mem _ hd)) hnil,
          settle_settle]

/-- There is no brace in a name. -/
theorem braces_events_of_isNamePart (hs : ∀ quote, s ≠ .escaped quote)
    (hcs : ∀ c ∈ cs, isNamePart c = true) : Event.braces (s.events cs) = [] := by
  induction cs generalizing s with
  | nil => rfl
  | cons c cs ih =>
      rw [events_cons, read_of_isNamePart hs (hcs c List.mem_cons_self)]
      exact ih (settle_ne_escaped hs) fun d hd => hcs d (List.mem_cons_of_mem _ hd)

end LexState

/-- No mark of a reference stands in a name. -/
theorem markFree_of_isNamePart {cs : List Char} (hcs : ∀ c ∈ cs, isNamePart c = true) :
    MarkFree cs := by
  have hfree (d : Char) (hd : isNamePart d = false) : d ∉ cs := by
    intro hmem
    exact ne_of_isNamePart (hcs d hmem) hd rfl
  exact ⟨hfree Reference.startMark (isNamePart_eq_false _ (by simp)),
    hfree Reference.endMark (isNamePart_eq_false _ (by simp))⟩

/-- A spelling of a valid name is written with the characters of names, one at least. -/
theorem isNamePart_of_mem_spelling {q : TypeName} (hq : q.Valid) (d : Draft) :
    (∀ c ∈ (d.spelling q).1.toList, isNamePart c = true) ∧ (d.spelling q).1.toList ≠ [] := by
  rcases d.spelling_cases q with ⟨-, h, -⟩ | h
  · rw [h]
    exact ⟨fun c hc => hq.isNamePart_of_mem_simpleName hc, hq.toList_simpleName_ne_nil⟩
  · rw [h]
    exact ⟨fun c hc => hq.isNamePart_of_mem_dotted hc, hq.toList_dotted_ne_nil⟩

/-! ## What a unit is given -/

/-- What a unit can be given in one call. -/
inductive Fragment where
  | text (s : String)
  | reference (q : TypeName)
  deriving DecidableEq, Repr

/-- The characters of the fragment. -/
def Fragment.stream : Fragment → List Char
  | text s => s.toList
  | reference q => (Reference.encode q).toList

namespace CompilationUnit

/-! ## One step -/

/-- The unit `u` has been given the characters `stream` and has written `body` in answer, and
`body` tells the same of its braces and of where it ends. -/
structure Faithful (before : String) (stream body : List Char) (u : CompilationUnit) : Prop where
  atRest : u.AtRest
  text : u.text = before ++ String.ofList body
  markFree : MarkFree body
  lexer : Lexer.after {} stream = u.lexer
  state : LexState.normal.after body = u.lexer.state
  braces : Event.braces (LexState.normal.events body) = Event.braces (Lexer.events {} stream)
  nested : Event.Affords 0 (LexState.normal.events body)
  depth : Event.closes (LexState.normal.events body) + u.draft.depth =
    Event.opens (LexState.normal.events body)

variable {before : String} {stream body : List Char} {u v : CompilationUnit}

/-- What a step has to show: the unit is at rest again, and of what the step adds to stream and
text each tells the same, read from where the unit was. -/
theorem Faithful.grow (h : Faithful before stream body u) {cs ds : List Char}
    (hrest : v.AtRest) (htext : v.text = u.text ++ String.ofList ds) (hmarks : MarkFree ds)
    (hlexer : u.lexer.after cs = v.lexer) (hstate : u.lexer.state.after ds = v.lexer.state)
    (hbraces : Event.braces (u.lexer.state.events ds) = Event.braces (u.lexer.events cs))
    (hnested : Event.Affords u.draft.depth (u.lexer.state.events ds))
    (hdepth : Event.closes (u.lexer.state.events ds) + v.draft.depth =
      Event.opens (u.lexer.state.events ds) + u.draft.depth) :
    Faithful before (stream ++ cs) (body ++ ds) v := by
  have hevents : LexState.normal.events (body ++ ds) =
      LexState.normal.events body ++ u.lexer.state.events ds := by
    rw [LexState.events_append, h.state]
  refine ⟨hrest, ?_, h.markFree.append hmarks, ?_, ?_, ?_, ?_, ?_⟩
  · rw [htext, h.text, String.ofList_append, String.append_assoc]
  · rw [Lexer.after_append, h.lexer, hlexer]
  · rw [LexState.after_append, h.state, hstate]
  · rw [hevents, Event.braces_append, h.braces, hbraces, Lexer.events_append, h.lexer,
      Event.braces_append]
  · rw [hevents]
    exact h.nested.append h.depth hnested
  · have hbody := h.depth
    rw [hevents, Event.closes_append, Event.opens_append]
    omega

/-- A plain character that is taken is the next character of stream and text alike. -/
theorem Faithful.append_plain (h : Faithful before stream body u) {c : Char}
    (hs : c ≠ Reference.startMark) (he : c ≠ Reference.endMark)
    (hok : (u.append c).error? = none) :
    Faithful before (stream ++ [c]) (body ++ [c]) (u.append c).state := by
  have hrest := (h.atRest.append_plain hs he).2 hok
  have hclassify := h.atRest.classify_plain hs he
  obtain ⟨depth, hafter, hdepth⟩ := h.atRest.reading_append hs he hok
  have htext : (u.append c).state.text = u.text.push c := congrArg Reading.text hafter
  have hstate : (u.append c).state.lexer.state = (u.lexer.state.read c).2 :=
    congrArg Reading.state hafter
  have hblocks : (u.append c).state.draft.depth = depth := congrArg Reading.depth hafter
  refine h.grow hrest ?_ (markFree_cons.2 ⟨hs, he, markFree_nil⟩) rfl hstate.symm ?_
    ((Event.affords_cons hdepth).2 (Event.affords_nil depth)) ?_
  · rw [htext, String.push_eq_append]
    rfl
  · rw [LexState.events_cons, Lexer.events_cons, hclassify]
    rfl
  · rw [hblocks]
    exact hdepth

/-- The same of a whole text without marks. -/
theorem Faithful.append_text (h : Faithful before stream body u) {cs : List Char}
    (hcs : MarkFree cs) (hok : (u.appendList cs).error? = none) :
    Faithful before (stream ++ cs) (body ++ cs) (u.appendList cs).state := by
  induction cs generalizing stream body u with
  | nil => simpa using h
  | cons c cs ih =>
      obtain ⟨hs, he, hrest⟩ := markFree_cons.1 hcs
      rw [appendList_cons] at hok ⊢
      cases herror : (u.append c).error? with
      | some e =>
          rw [Outcome.andThen_of_error herror, herror] at hok
          exact absurd hok (by simp)
      | none =>
          rw [Outcome.andThen_of_ok herror] at hok ⊢
          have hstep := ih (h.append_plain hs he herror) hrest hok
          simpa using hstep

/-- **A reference to a valid name is taken by a unit at rest.**  Its explicit form is read back
as that name, the spelling of the name gets into the text, and the lexer is settled. -/
theorem AtRest.appendType_eq (hu : u.AtRest) {q : TypeName} (hq : q.Valid) :
    u.appendType q =
      .ok { u.settled with
        draft := u.draft.settled.writeReference q u.lexer.state.settle.region } := by
  have hstream : u.appendType q =
      u.appendList (StreamPiece.reference q.explicit.toList).stream := by
    rw [appendType, appendText, Reference.toList_encode]
    rfl
  rw [hstream, hu.appendList_reference hq.endMark_notMem_explicit, String.ofList_toList,
    hq.parse_explicit]

/-- A reference goes into the stream, and its spelling into the text. -/
theorem Faithful.append_reference (h : Faithful before stream body u) {q : TypeName}
    (hq : q.Valid) (hescaped : ∀ quote, u.lexer.state ≠ .escaped quote) :
    ∃ name, Faithful before (stream ++ (Reference.encode q).toList) (body ++ name)
      (u.appendType q).state := by
  obtain ⟨hname, hne⟩ := isNamePart_of_mem_spelling hq u.draft.settled
  refine ⟨(u.draft.settled.spelling q).1.toList, ?_⟩
  have hlexer : u.lexer = ⟨u.lexer.state, false⟩ := h.atRest.lexer_eq
  have hbraces : Event.braces (u.lexer.state.events (u.draft.settled.spelling q).1.toList) = [] :=
    LexState.braces_events_of_isNamePart hescaped hname
  rw [h.atRest.appendType_eq hq, Reference.toList_encode]
  refine h.grow ⟨rfl, rfl, h.atRest.noFailure⟩ ?_ (markFree_of_isNamePart hname) ?_
    (LexState.after_of_isNamePart hescaped hname hne) ?_ (Event.affords_of_braces hbraces _) ?_
  · rw [String.ofList_toList]
    rfl
  · rw [hlexer, Lexer.after_reference hq.endMark_notMem_explicit]
    rfl
  · rw [hbraces, hlexer, Lexer.braces_reference hq.endMark_notMem_explicit]
  · rw [Event.closes_eq_zero_of_braces hbraces, Event.opens_eq_zero_of_braces hbraces]
    rfl

/-! ## A whole run -/

/-- The unit `u` takes the fragments one after the other and is `v` then.  The texts are without
marks, the references are to valid names, and none of them starts right after a backslash in a
literal. -/
inductive Writes : CompilationUnit → List Fragment → CompilationUnit → Prop where
  | nil (u : CompilationUnit) : Writes u [] u
  | text {u v : CompilationUnit} {s : String} {rest : List Fragment} (hmarks : MarkFree s.toList)
      (htaken : (u.appendText s).error? = none) (hrest : Writes (u.appendText s).state rest v) :
      Writes u (.text s :: rest) v
  | reference {u v : CompilationUnit} {q : TypeName} {rest : List Fragment} (hvalid : q.Valid)
      (hescaped : ∀ quote, u.lexer.state ≠ .escaped quote)
      (htaken : (u.appendType q).error? = none) (hrest : Writes (u.appendType q).state rest v) :
      Writes u (.reference q :: rest) v

/-- Fragments that are taken leave the text as faithful as it was. -/
theorem Writes.faithful {fragments : List Fragment} (hwrites : Writes u fragments v)
    (h : Faithful before stream body u) :
    ∃ added, Faithful before (stream ++ fragments.flatMap Fragment.stream) (body ++ added) v := by
  induction hwrites generalizing stream body with
  | nil u => exact ⟨[], by simpa using h⟩
  | @text u v s rest hmarks htaken hrest ih =>
      obtain ⟨added, hadded⟩ := ih (h.append_text hmarks htaken)
      refine ⟨s.toList ++ added, ?_⟩
      rw [List.flatMap_cons, ← List.append_assoc, ← List.append_assoc]
      exact hadded
  | @reference u v q rest hvalid hescaped htaken hrest ih =>
      obtain ⟨name, hname⟩ := h.append_reference hvalid hescaped
      obtain ⟨added, hadded⟩ := ih hname
      refine ⟨name ++ added, ?_⟩
      rw [List.flatMap_cons, ← List.append_assoc, ← List.append_assoc]
      exact hadded

theorem target_appendList (u : CompilationUnit) (cs : List Char) :
    (u.appendList cs).state.target = u.target := by
  have hstep (v : CompilationUnit) (c : Char) (h : v.target = u.target) :
      (v.append c).state.target = u.target := h
  exact Outcome.each_invariant hstep rfl cs

theorem Writes.target_eq {fragments : List Fragment} (hwrites : Writes u fragments v) :
    v.target = u.target := by
  induction hwrites with
  | nil u => rfl
  | @text u v s rest hmarks htaken hrest ih => rw [ih, appendText, target_appendList]
  | @reference u v q rest hvalid hescaped htaken hrest ih =>
      rw [ih, appendType, appendText, target_appendList]

/-- What follows the preamble is the body. -/
theorem body_of_text {s : String} (h : u.text = preamble u.target ++ s) : u.body = s := by
  rw [body, h, String.toList_append, ← String.length_toList, List.drop_left, String.ofList_toList]

variable {visible : Visibility} {target : TypeName} {companions : List TypeName}
  {features : Features}

theorem faithful_of_start (h : start visible target companions features = .ok u) :
    Faithful (preamble target) [] [] u := by
  refine ⟨atRest_of_start h, ?_, markFree_nil, ?_, ?_, rfl, Event.affords_nil 0, ?_⟩
  · show u.reading.text = _
    rw [reading_of_start h, String.ofList_nil, String.append_empty]
  · obtain ⟨-, scope, -, rfl⟩ := start_eq_ok_iff.1 h
    rfl
  · show _ = u.reading.state
    rw [reading_of_start h]
    rfl
  · show _ + u.reading.depth = _
    rw [reading_of_start h]
    rfl

/-- **The text says of itself what the unit tracked.**  Read from scratch, the body ends in the
state that the lexer of the unit is in.  It has the braces of the stream in their order, none
of them closes a block that is not open, and the blocks they leave open are those the unit has
open. -/
theorem Writes.reads_back {fragments : List Fragment}
    (h : start visible target companions features = .ok u) (hwrites : Writes u fragments v) :
    v.text = preamble target ++ v.body ∧
      Lexer.after {} v.body.toList = v.lexer ∧
      Event.braces (Lexer.events {} v.body.toList) =
        Event.braces (Lexer.events {} (fragments.flatMap Fragment.stream)) ∧
      (∀ p, p <+: Lexer.events {} v.body.toList → Event.closes p ≤ Event.opens p) ∧
      Event.closes (Lexer.events {} v.body.toList) + v.draft.depth =
        Event.opens (Lexer.events {} v.body.toList) := by
  obtain ⟨added, hadded⟩ := hwrites.faithful (faithful_of_start h)
  rw [List.nil_append, List.nil_append] at hadded
  have htarget : v.target = target := by
    rw [hwrites.target_eq, target_of_start h]
  have hbody : v.body = String.ofList added := by
    refine body_of_text ?_
    rw [htarget]
    exact hadded.text
  have hevents : Lexer.events {} added = LexState.normal.events added :=
    Lexer.events_of_markFree hadded.markFree .normal
  have hafter : Lexer.after {} added = ⟨LexState.normal.after added, false⟩ :=
    Lexer.after_of_markFree hadded.markFree .normal
  rw [hbody, String.toList_ofList, hevents]
  refine ⟨hadded.text, ?_, hadded.braces, fun p hp => ?_, hadded.depth⟩
  · rw [hafter, hadded.state, ← hadded.atRest.lexer_eq]
  · have hnested := hadded.nested p hp
    omega

/-- References after a division, in a comment that is about to close and in a string: the
braces of the text are those of the stream. -/
theorem Writes.reads_back_widget :
    ∃ u v, start Visibility.nothing ⟨["com", "example"], ["Widget"]⟩ [] .empty = .ok u ∧
      Writes u [.text "\x7b 1/", .reference ⟨["java", "util"], ["List"]⟩, .text "/*\x7b*",
        .reference ⟨["java", "awt"], ["List"]⟩, .text "/*/\x7b \"",
        .reference ⟨["java", "util"], ["List"]⟩, .text "\x7d\"\x7d"] v ∧
      Event.braces (Lexer.events {} v.body.toList) = [.blockOpen, .blockOpen, .blockClose] := by
  have hstart := start_nothing ⟨["com", "example"], ["Widget"]⟩ .empty (by decide)
  have hquote (s : LexState) (hstring : s ≠ .escaped .string) (hchar : s ≠ .escaped .char)
      (quote : Quote) : s ≠ .escaped quote := by
    cases quote with
    | string => exact hstring
    | char => exact hchar
  obtain ⟨v, hwrites⟩ : ∃ v, Writes
      (fresh ⟨["com", "example"], ["Widget"]⟩ .empty
        (Scope.empty.claim ⟨["com", "example"], ["Widget"]⟩ true))
      [.text "\x7b 1/", .reference ⟨["java", "util"], ["List"]⟩, .text "/*\x7b*",
        .reference ⟨["java", "awt"], ["List"]⟩, .text "/*/\x7b \"",
        .reference ⟨["java", "util"], ["List"]⟩, .text "\x7d\"\x7d"] v := by
    refine ⟨_, .text (by decide) ?_ (.reference (by decide +kernel) (hquote _ ?_ ?_) ?_
      (.text (by decide) ?_ (.reference (by decide +kernel) (hquote _ ?_ ?_) ?_
        (.text (by decide) ?_ (.reference (by decide +kernel) (hquote _ ?_ ?_) ?_
          (.text (by decide) ?_ (.nil _)))))))⟩
    all_goals decide +kernel
  refine ⟨_, v, hstart, hwrites, ?_⟩
  rw [(hwrites.reads_back hstart).2.2.1]
  decide +kernel

end CompilationUnit
end JavaUnit
