import JavaUnit.Proofs.Effects
import JavaUnit.Proofs.Lexing
import JavaUnit.Proofs.Starting
import Mathlib.Data.List.TakeWhile

/-!
# A stream read piece by piece

A unit takes its stream one character at a time, and three parts of it have to agree on where
a reference starts and ends: the lexer, the payload that the draft collects, and the scope
that spells the result.  Here the same stream is read with less machinery.  It is cut at the
marks once (`cut`), and each piece is then read as a whole (`Reading.read`): a character of
text is written, a reference that names a type is written as the unit spells it at that point,
and there are three mistakes a piece can be.

What is kept between pieces is a `Reading`: the text, the lexical state, and the number of
open blocks.  It knows of no marks and no payload.  `map_reading_appendList` says that a unit
at rest reads a stream as its pieces are read, whatever the stream is, and a unit that has just
been started is at rest (`atRest_of_start`).

The pieces of a text without marks are its characters, and reading those asks the unit for
nothing (`readAll_plain`).
-/

namespace JavaUnit

namespace Outcome

variable {σ τ ε : Type}

/-- The same outcome with its state seen through `f`. -/
def map (f : σ → τ) (o : Outcome σ ε) : Outcome τ ε :=
  ⟨f o.state, o.error?⟩

@[simp] theorem map_ok (f : σ → τ) (s : σ) : (ok s : Outcome σ ε).map f = ok (f s) := rfl

@[simp] theorem map_fail (f : σ → τ) (s : σ) (e : ε) : (fail s e).map f = fail (f s) e := rfl

@[simp] theorem error?_map (f : σ → τ) (o : Outcome σ ε) : (o.map f).error? = o.error? := rfl

@[simp] theorem state_map (f : σ → τ) (o : Outcome σ ε) : (o.map f).state = f o.state := rfl

/-- Two steps seen through `f`, if the second looks the same from where the first leads. -/
theorem map_andThen {f : σ → τ} {o : Outcome σ ε} {next : σ → Outcome σ ε}
    {next' : τ → Outcome τ ε}
    (h : o.error? = none → (next o.state).map f = next' (f o.state)) :
    (o.andThen next).map f = (o.map f).andThen next' := by
  obtain ⟨s, _ | e⟩ := o
  · exact h rfl
  · rfl

end Outcome

/-! ## Cutting a stream -/

/-- A piece of a stream of characters. -/
inductive StreamPiece where
  /-- A character outside of the marks. -/
  | plain (c : Char)
  /-- A reference, with what stands between its marks. -/
  | reference (payload : List Char)
  /-- An end mark with no start mark before it. -/
  | strayEnd
  /-- A reference that the stream breaks off in. -/
  | unclosed (payload : List Char)
  deriving DecidableEq, Repr

/-- The characters of the piece. -/
def StreamPiece.stream : StreamPiece → List Char
  | plain c => [c]
  | reference payload => Reference.startMark :: (payload ++ [Reference.endMark])
  | strayEnd => [Reference.endMark]
  | unclosed payload => Reference.startMark :: payload

/-- Cuts a stream at the marks.  What a start mark opens lasts to the next end mark, and
further start marks belong to it. -/
def cut : List Char → List StreamPiece
  | [] => []
  | c :: rest =>
      if c = Reference.startMark then
        match _h : rest.dropWhile (· ≠ Reference.endMark) with
        | [] => [.unclosed rest]
        | _ :: after => .reference (rest.takeWhile (· ≠ Reference.endMark)) :: cut after
      else if c = Reference.endMark then .strayEnd :: cut rest
      else .plain c :: cut rest
termination_by cs => cs.length
decreasing_by
  · have hlength := (List.dropWhile_sublist (l := rest) (· ≠ Reference.endMark)).length_le
    rw [_h] at hlength
    simp only [List.length_cons] at hlength ⊢
    omega
  · simp only [List.length_cons]
    omega
  · simp only [List.length_cons]
    omega

/-- Where an end mark comes, it is what ends the payload. -/
theorem eq_append_of_dropWhile {rest after : List Char} {d : Char}
    (h : rest.dropWhile (· ≠ Reference.endMark) = d :: after) :
    rest = rest.takeWhile (· ≠ Reference.endMark) ++ Reference.endMark :: after := by
  have hd : d = Reference.endMark := by
    have hhead := List.head?_dropWhile_not (· ≠ Reference.endMark) rest
    rw [h] at hhead
    simpa using hhead
  calc rest = rest.takeWhile (· ≠ Reference.endMark) ++ rest.dropWhile (· ≠ Reference.endMark) :=
        List.takeWhile_append_dropWhile.symm
    _ = rest.takeWhile (· ≠ Reference.endMark) ++ Reference.endMark :: after := by rw [h, hd]

/-- A payload goes up to the first end mark. -/
theorem endMark_notMem_takeWhile (rest : List Char) :
    Reference.endMark ∉ rest.takeWhile (· ≠ Reference.endMark) := by
  intro hmem
  have := List.mem_takeWhile_imp hmem
  simp at this

theorem endMark_notMem_of_dropWhile {rest : List Char}
    (h : rest.dropWhile (· ≠ Reference.endMark) = []) : Reference.endMark ∉ rest := by
  intro hmem
  have := List.dropWhile_eq_nil_iff.1 h _ hmem
  simp at this

/-- Cutting loses nothing. -/
theorem flatMap_stream_cut (cs : List Char) : (cut cs).flatMap StreamPiece.stream = cs := by
  fun_induction cut cs with
  | case1 => rfl
  | case2 rest h => simp [StreamPiece.stream]
  | case3 rest d after h ih =>
      rw [List.flatMap_cons, ih]
      have hrest := eq_append_of_dropWhile h
      simp only [StreamPiece.stream, List.cons_append, List.append_assoc, List.nil_append]
      rw [← hrest]
  | case4 rest hstart ih =>
      rw [List.flatMap_cons, ih]
      rfl
  | case5 c rest hstart hend ih =>
      rw [List.flatMap_cons, ih]
      rfl

/-- A text without marks is cut into its characters. -/
theorem cut_of_markFree {cs : List Char} (h : MarkFree cs) : cut cs = cs.map .plain := by
  induction cs with
  | nil => simp [cut]
  | cons c cs ih =>
      obtain ⟨hs, he, hcs⟩ := markFree_cons.1 h
      rw [cut, if_neg hs, if_neg he, ih hcs, List.map_cons]

/-! ## Reading the pieces -/

/-- What there is to say of a unit between two pieces of its stream. -/
structure Reading where
  text : String
  state : LexState
  /-- The number of blocks that are open. -/
  depth : Nat
  deriving DecidableEq, Repr

namespace Reading

/-- Writes a character outside of the marks.  In code a `{` opens a block and a `}` closes
one; a `}` with no block to close is an error, at the place where it now stands. -/
def readChar (r : Reading) (c : Char) : Outcome Reading EmitError :=
  let text := r.text.push c
  let state := (r.state.read c).2
  match (r.state.read c).1, r.depth with
  | .blockOpen, depth => .ok ⟨text, state, depth + 1⟩
  | .blockClose, 0 => .fail ⟨text, state, 0⟩ (.unbalancedClose text ⟨r.text.utf8ByteSize, 1⟩)
  | .blockClose, depth + 1 => .ok ⟨text, state, depth⟩
  | _, depth => .ok ⟨text, state, depth⟩

theorem readChar_blockOpen {r : Reading} {c : Char} (h : (r.state.read c).1 = .blockOpen) :
    r.readChar c = .ok ⟨r.text.push c, (r.state.read c).2, r.depth + 1⟩ := by
  simp only [readChar, h]

theorem readChar_blockClose_zero {r : Reading} {c : Char} (h : (r.state.read c).1 = .blockClose)
    (hdepth : r.depth = 0) :
    r.readChar c =
      .fail ⟨r.text.push c, (r.state.read c).2, 0⟩
        (.unbalancedClose (r.text.push c) ⟨r.text.utf8ByteSize, 1⟩) := by
  simp only [readChar, h, hdepth]

theorem readChar_blockClose_succ {r : Reading} {c : Char} {n : Nat}
    (h : (r.state.read c).1 = .blockClose) (hdepth : r.depth = n + 1) :
    r.readChar c = .ok ⟨r.text.push c, (r.state.read c).2, n⟩ := by
  simp only [readChar, h, hdepth]

theorem readChar_text {r : Reading} {c : Char} {region : Region}
    (h : (r.state.read c).1 = .text c region) :
    r.readChar c = .ok ⟨r.text.push c, (r.state.read c).2, r.depth⟩ := by
  simp only [readChar, h]

/-- A character that is taken is written, and moves the number of open blocks as its event
says. -/
theorem readChar_of_ok {r : Reading} {c : Char} (h : (r.readChar c).error? = none) :
    ∃ depth, r.readChar c = .ok ⟨r.text.push c, (r.state.read c).2, depth⟩ ∧
      Event.closes [(r.state.read c).1] + depth = Event.opens [(r.state.read c).1] + r.depth := by
  rcases r.state.read_cases c with ⟨hevent, -⟩ | ⟨hevent, -⟩ | ⟨region, hevent⟩
  · refine ⟨r.depth + 1, readChar_blockOpen hevent, ?_⟩
    rw [hevent, Event.closes_singleton, Event.opens_singleton]
    simp only [reduceCtorEq, if_false, if_true]
    omega
  · cases hdepth : r.depth with
    | zero =>
        rw [readChar_blockClose_zero hevent hdepth] at h
        exact absurd h (by simp)
    | succ n =>
        refine ⟨n, readChar_blockClose_succ hevent hdepth, ?_⟩
        rw [hevent, Event.closes_singleton, Event.opens_singleton]
        simp only [reduceCtorEq, if_false, if_true]
        omega
  · refine ⟨r.depth, readChar_text hevent, ?_⟩
    rw [hevent, Event.closes_singleton, Event.opens_singleton]
    simp only [reduceCtorEq, if_false]

/-- A character that is refused is a `}` in code where no block is open, and it is written. -/
theorem readChar_of_error {r : Reading} {c : Char} {e : EmitError}
    (h : (r.readChar c).error? = some e) :
    (r.state.read c).1 = .blockClose ∧ c = '}' ∧ r.depth = 0 ∧
      r.readChar c =
        .fail ⟨r.text.push c, (r.state.read c).2, 0⟩
          (.unbalancedClose (r.text.push c) ⟨r.text.utf8ByteSize, 1⟩) := by
  rcases r.state.read_cases c with ⟨hevent, -⟩ | ⟨hevent, hc⟩ | ⟨region, hevent⟩
  · rw [readChar_blockOpen hevent] at h
    exact absurd h (by simp)
  · cases hdepth : r.depth with
    | zero => exact ⟨hevent, hc, rfl, readChar_blockClose_zero hevent hdepth⟩
    | succ n =>
        rw [readChar_blockClose_succ hevent hdepth] at h
        exact absurd h (by simp)
  · rw [readChar_text hevent] at h
    exact absurd h (by simp)

/-- Reads one piece, where a reference to a type is spelled as `spelling` says.  A payload
that names no type and an end mark on its own are errors, and neither gets into the text. -/
def read (spelling : TypeName → String) (r : Reading) : StreamPiece → Outcome Reading EmitError
  | .plain c => r.readChar c
  | .reference payload =>
      let settled := { r with state := r.state.settle }
      match TypeName.parse (String.ofList payload) with
      | .ok q => .ok { settled with text := r.text ++ spelling q }
      | .error cause => .fail settled (.malformedReference (String.ofList payload) cause)
  | .strayEnd => .fail r (.strayReferenceEnd r.text.utf8ByteSize)
  | .unclosed _ => .ok { r with state := r.state.settle }

/-- Reads the pieces up to the first that is an error.  Every reference is spelled as `u`
spells it once the pieces before have been streamed to it. -/
def readAll (u : CompilationUnit) (r : Reading) : List StreamPiece → Outcome Reading EmitError
  | [] => .ok r
  | piece :: rest =>
      (r.read (fun q => (u.spell q).1) piece).andThen
        (readAll (u.appendList piece.stream).state · rest)

/-- Plain characters are read without asking the unit for anything. -/
theorem readAll_plain (u : CompilationUnit) (r : Reading) (cs : List Char) :
    r.readAll u (cs.map .plain) = Outcome.each readChar r cs := by
  induction cs generalizing u r with
  | nil => rfl
  | cons c cs ih =>
      rw [List.map_cons, readAll, Outcome.each_cons]
      exact Outcome.andThen_congr _ (ih _)

/-- The mistakes that a piece can be, with the error that each of them is. -/
inductive Refuses (r : Reading) : StreamPiece → EmitError → Prop where
  /-- A `}` in code with no block open. -/
  | unbalanced (hclose : (r.state.read '}').1 = .blockClose) (hdepth : r.depth = 0) :
      Refuses r (.plain '}') (.unbalancedClose (r.text.push '}') ⟨r.text.utf8ByteSize, 1⟩)
  | stray : Refuses r .strayEnd (.strayReferenceEnd r.text.utf8ByteSize)
  /-- A payload that names no type. -/
  | malformed {payload : List Char} {cause : NameError}
      (hparse : TypeName.parse (String.ofList payload) = .error cause) :
      Refuses r (.reference payload) (.malformedReference (String.ofList payload) cause)

/-- Reading a piece fails if it is a mistake, and with the error that the mistake is. -/
theorem error?_read_iff {spelling : TypeName → String} {r : Reading} {piece : StreamPiece}
    {e : EmitError} : (r.read spelling piece).error? = some e ↔ r.Refuses piece e := by
  constructor
  · intro h
    cases piece with
    | plain c =>
        obtain ⟨hclose, rfl, hdepth, hread⟩ := readChar_of_error h
        rw [read, hread, Outcome.error?_fail] at h
        obtain rfl := Option.some.inj h
        exact .unbalanced hclose hdepth
    | reference payload =>
        simp only [read] at h
        cases hparse : TypeName.parse (String.ofList payload) with
        | ok q =>
            rw [hparse] at h
            exact absurd h (by simp)
        | error cause =>
            rw [hparse] at h
            obtain rfl := Option.some.inj h
            exact .malformed hparse
    | strayEnd =>
        obtain rfl := Option.some.inj h
        exact .stray
    | unclosed payload => exact absurd h (by simp [read])
  · intro h
    cases h with
    | unbalanced hclose hdepth =>
        rw [read, readChar_blockClose_zero hclose hdepth]
        rfl
    | stray => rfl
    | malformed hparse =>
        simp only [read, hparse]
        rfl

/-- A reading that fails got to a mistake, with nothing wrong before it. -/
theorem exists_refused {u : CompilationUnit} {r : Reading} {pieces : List StreamPiece}
    {e : EmitError} (h : (r.readAll u pieces).error? = some e) :
    ∃ done piece rest r', pieces = done ++ piece :: rest ∧ r.readAll u done = .ok r' ∧
      r'.Refuses piece e := by
  induction pieces generalizing u r with
  | nil => exact absurd h (by simp [readAll])
  | cons piece pieces ih =>
      cases herror : (r.read (fun q => (u.spell q).1) piece).error? with
      | some e' =>
          rw [readAll, Outcome.andThen_of_error herror, herror] at h
          obtain rfl := Option.some.inj h
          exact ⟨[], piece, pieces, r, rfl, rfl, error?_read_iff.1 herror⟩
      | none =>
          rw [readAll, Outcome.andThen_of_ok herror] at h
          obtain ⟨done, piece', rest, r'', rfl, hdone, hrefuses⟩ := ih h
          refine ⟨piece :: done, piece', rest, r'', rfl, ?_, hrefuses⟩
          rw [readAll, Outcome.andThen_of_ok herror]
          exact hdone

end Reading

namespace CompilationUnit

/-- The unit between two pieces of its stream. -/
def reading (u : CompilationUnit) : Reading :=
  ⟨u.text, u.lexer.state, u.draft.depth⟩

/-- No reference is being read, and nothing has failed. -/
structure AtRest (u : CompilationUnit) : Prop where
  noMark : u.lexer.inReference = false
  noPayload : u.draft.reference? = none
  noFailure : u.draft.failedAt? = none

theorem AtRest.lexer_eq {u : CompilationUnit} (h : u.AtRest) :
    u.lexer = ⟨u.lexer.state, false⟩ := by
  rw [← h.noMark]

end CompilationUnit

/-- The draft with no word and no reference in progress. -/
def Draft.settled (d : Draft) : Draft :=
  { d with header := d.header.interrupt, reference? := none }

namespace CompilationUnit

/-! ## One character -/

theorem append_eq_ok {u : CompilationUnit} {c : Char} {d : Draft}
    (h : u.draft.handle (u.lexer.classify c).1 = .ok d) :
    u.append c = .ok { u with draft := d, lexer := (u.lexer.classify c).2 } := by
  simp [append, h, Outcome.ok]

theorem append_eq_fail {u : CompilationUnit} {c : Char} {d : Draft} {e : EmitError}
    (h : u.draft.handle (u.lexer.classify c).1 = .fail d e) :
    u.append c = .fail { u with draft := d, lexer := (u.lexer.classify c).2 } e := by
  simp [append, h, Outcome.fail]

variable {u : CompilationUnit}

theorem AtRest.classify_plain (hu : u.AtRest) {c : Char} (hs : c ≠ Reference.startMark)
    (he : c ≠ Reference.endMark) :
    u.lexer.classify c = ((u.lexer.state.read c).1, ⟨(u.lexer.state.read c).2, false⟩) := by
  rw [hu.lexer_eq]
  exact Lexer.classify_plain _ hs he

/-- A plain character does to the unit what it does to its reading, and if it is taken the
unit is at rest again. -/
theorem AtRest.append_plain (hu : u.AtRest) {c : Char} (hs : c ≠ Reference.startMark)
    (he : c ≠ Reference.endMark) :
    (u.append c).map reading = u.reading.readChar c ∧
      ((u.append c).error? = none → (u.append c).state.AtRest) := by
  have hclassify := hu.classify_plain hs he
  have hok {d : Draft} (hd : u.draft.take (u.lexer.state.read c).1 = .ok d) :
      u.append c =
        .ok { u with draft := d, lexer := ⟨(u.lexer.state.read c).2, false⟩ } := by
    have hhandle := Draft.handle_eq_ok hu.noFailure hd
    rw [append_eq_ok (by rw [hclassify]; exact hhandle), hclassify]
  rcases u.lexer.state.read_cases c with ⟨hevent, rfl⟩ | ⟨hevent, rfl⟩ | ⟨region, hevent⟩
  · -- a block opens
    rw [hok (by rw [hevent]; rfl), Reading.readChar_blockOpen hevent]
    refine ⟨?_, fun _ => ⟨rfl, ?_, ?_⟩⟩
    · simp [reading, text]
    · simpa using hu.noPayload
    · simpa using hu.noFailure
  · cases hdepth : u.draft.depth with
    | zero =>
        -- there is no block to close
        have hclose := Draft.handle_eq_fail hu.noFailure
          (show u.draft.take .blockClose = _ from Draft.closeBlock_of_depth_eq_zero hdepth)
        rw [append_eq_fail (by rw [hclassify, hevent]; exact hclose), hclassify,
          Reading.readChar_blockClose_zero hevent hdepth]
        refine ⟨?_, fun h => absurd h (by simp)⟩
        rw [Outcome.map_fail]
        congr 1
        exact congrArg (Reading.mk _ _) hdepth
    | succ n =>
        -- the innermost block closes
        rw [hok (by rw [hevent]; exact Draft.closeBlock_of_depth_eq_succ hdepth),
          Reading.readChar_blockClose_succ hevent hdepth]
        refine ⟨?_, fun _ => ⟨rfl, hu.noPayload, hu.noFailure⟩⟩
        have htail : u.draft.blocks.tail.length = n := by
          rw [List.length_tail]
          change u.draft.depth - 1 = n
          omega
        rw [Outcome.map_ok]
        exact congrArg (fun depth => Outcome.ok (Reading.mk _ _ depth)) htail
  · -- the character is text
    rw [hok (by rw [hevent]; rfl), Reading.readChar_text hevent]
    exact ⟨rfl, fun _ => ⟨rfl, hu.noPayload, hu.noFailure⟩⟩

/-- A plain character that is taken is written, and moves the lexical state and the number of
open blocks as it does on its own. -/
theorem AtRest.reading_append (hu : u.AtRest) {c : Char} (hs : c ≠ Reference.startMark)
    (he : c ≠ Reference.endMark) (hok : (u.append c).error? = none) :
    ∃ depth, (u.append c).state.reading = ⟨u.text.push c, (u.lexer.state.read c).2, depth⟩ ∧
      Event.closes [(u.lexer.state.read c).1] + depth =
        Event.opens [(u.lexer.state.read c).1] + u.draft.depth := by
  obtain ⟨hreading, -⟩ := hu.append_plain hs he
  have htaken : (u.reading.readChar c).error? = none := by
    rw [← hreading]
    exact hok
  obtain ⟨depth, hread, hdepth⟩ := Reading.readChar_of_ok htaken
  refine ⟨depth, ?_, hdepth⟩
  rw [← Outcome.state_map reading, hreading, hread]
  rfl

/-! ## One reference -/

/-- The unit in the middle of a reference that stands in `region`, with `payload` read. -/
def collecting (u : CompilationUnit) (s : LexState) (region : Region) (payload : String) :
    CompilationUnit :=
  { u with
    draft := { u.draft with reference? := some (payload, region) }
    lexer := ⟨s, true⟩ }

/-- The unit where a reference comes next: nothing is pending. -/
def settled (u : CompilationUnit) : CompilationUnit :=
  { u with draft := u.draft.settled, lexer := ⟨u.lexer.state.settle, false⟩ }

/-- A start mark settles the unit, and from there a payload is collected. -/
theorem AtRest.append_startMark (hu : u.AtRest) :
    u.append Reference.startMark =
      .ok (u.settled.collecting u.lexer.state.settle u.lexer.state.settle.region "") := by
  have hclassify : u.lexer.classify Reference.startMark =
      (.referenceStart u.lexer.state.settle.region, ⟨u.lexer.state.settle, true⟩) := by
    rw [hu.lexer_eq]
    exact Lexer.classify_startMark _
  rw [append_eq_ok (by rw [hclassify]; exact Draft.handle_eq_ok hu.noFailure rfl), hclassify]
  rfl

/-- Up to the end mark nothing but the payload grows. -/
theorem append_collecting (hu : u.draft.failedAt? = none) {c : Char}
    (hc : c ≠ Reference.endMark) (s : LexState) (region : Region) (payload : String) :
    (u.collecting s region payload).append c = .ok (u.collecting s region (payload.push c)) := by
  have hclassify : (u.collecting s region payload).lexer.classify c =
      (.referenceChar c, ⟨s, true⟩) := Lexer.classify_inReference s hc
  have htake : (u.collecting s region payload).draft.take (.referenceChar c) =
      .ok (u.collecting s region (payload.push c)).draft :=
    congrArg Outcome.ok (Draft.readReference_of_some rfl c)
  rw [append_eq_ok (by rw [hclassify]; exact Draft.handle_eq_ok hu htake), hclassify]
  rfl

theorem appendList_collecting (hu : u.draft.failedAt? = none) {cs : List Char}
    (hcs : Reference.endMark ∉ cs) (s : LexState) (region : Region) (payload : String) :
    (u.collecting s region payload).appendList cs =
      .ok (u.collecting s region (payload ++ String.ofList cs)) := by
  induction cs generalizing payload with
  | nil => rw [appendList_nil, String.ofList_nil, String.append_empty]
  | cons c cs ih =>
      have hc : c ≠ Reference.endMark := fun he => hcs (he ▸ List.mem_cons_self)
      rw [appendList_cons, append_collecting hu hc, Outcome.andThen_ok,
        ih fun hmem => hcs (List.mem_cons_of_mem _ hmem), String.ofList_cons,
        String.push_eq_append, String.append_assoc]

/-- What a whole reference does to a unit at rest: it is replaced by its spelling, or it is
malformed and leaves no trace in the text. -/
theorem AtRest.appendList_reference (hu : u.AtRest) {payload : List Char}
    (h : Reference.endMark ∉ payload) :
    u.appendList (StreamPiece.reference payload).stream =
      match TypeName.parse (String.ofList payload) with
      | .ok q =>
          .ok { u.settled with
            draft := u.draft.settled.writeReference q u.lexer.state.settle.region }
      | .error cause =>
          .fail { u.settled with
            draft := { u.draft.settled with failedAt? := some u.draft.size } }
          (.malformedReference (String.ofList payload) cause) := by
  let collected := u.settled.collecting u.lexer.state.settle u.lexer.state.settle.region
    (String.ofList payload)
  have hend : collected.lexer.classify Reference.endMark =
      (.referenceEnd, ⟨u.lexer.state.settle, false⟩) := Lexer.classify_endMark _ true
  have hpayload : collected.draft.reference? =
      some (String.ofList payload, u.lexer.state.settle.region) := rfl
  have hfailure : u.settled.draft.failedAt? = none := hu.noFailure
  rw [StreamPiece.stream, appendList_cons, hu.append_startMark, Outcome.andThen_ok,
    appendList_append, appendList_collecting hfailure h, Outcome.andThen_ok, appendList_cons,
    String.empty_append]
  cases hparse : TypeName.parse (String.ofList payload) with
  | ok q =>
      have htake := Draft.endReference_of_parse hpayload hparse
      rw [append_eq_ok (by rw [hend]; exact Draft.handle_eq_ok hfailure htake), hend]
      rfl
  | error cause =>
      have htake := Draft.endReference_of_parse_error hpayload hparse
      rw [append_eq_fail (by rw [hend]; exact Draft.handle_eq_fail hfailure htake), hend]
      rfl

/-- A whole reference does to the unit what it does to its reading, and if it names a type the
unit is at rest again. -/
theorem AtRest.reading_reference (hu : u.AtRest) {payload : List Char}
    (h : Reference.endMark ∉ payload) :
    (u.appendList (StreamPiece.reference payload).stream).map reading =
        u.reading.read (fun q => (u.spell q).1) (.reference payload) ∧
      ((u.appendList (StreamPiece.reference payload).stream).error? = none →
        (u.appendList (StreamPiece.reference payload).stream).state.AtRest) := by
  rw [hu.appendList_reference h]
  simp only [Reading.read]
  cases hparse : TypeName.parse (String.ofList payload) with
  | ok q => exact ⟨rfl, fun _ => ⟨rfl, rfl, hu.noFailure⟩⟩
  | error cause => exact ⟨rfl, fun hnone => absurd hnone (by simp)⟩

/-- An end mark on its own is an error, and the text stays as it is. -/
theorem AtRest.reading_strayEnd (hu : u.AtRest) :
    (u.append Reference.endMark).map reading =
      .fail u.reading (.strayReferenceEnd u.text.utf8ByteSize) := by
  have hclassify : u.lexer.classify Reference.endMark = (.referenceEnd, u.lexer) := by
    rw [hu.lexer_eq]
    exact Lexer.classify_endMark _ _
  have hhandle := Draft.handle_eq_fail hu.noFailure
    (show u.draft.take .referenceEnd = _ from Draft.endReference_of_none hu.noPayload)
  rw [append_eq_fail (by rw [hclassify]; exact hhandle), hclassify]
  rfl

/-- A reference that the stream breaks off in is settled for and writes nothing. -/
theorem AtRest.reading_unclosed (hu : u.AtRest) {payload : List Char}
    (h : Reference.endMark ∉ payload) :
    (u.appendList (StreamPiece.unclosed payload).stream).map reading =
      .ok { u.reading with state := u.reading.state.settle } := by
  have hfailure : u.settled.draft.failedAt? = none := hu.noFailure
  rw [StreamPiece.stream, appendList_cons, hu.append_startMark, Outcome.andThen_ok,
    appendList_collecting hfailure h]
  rfl

/-! ## A whole stream -/

/-- One piece and then the rest of the stream. -/
theorem map_reading_appendList_piece (piece : StreamPiece) {cs : List Char}
    {pieces : List StreamPiece}
    (hpiece : (u.appendList piece.stream).map reading =
      u.reading.read (fun q => (u.spell q).1) piece)
    (hrest : (u.appendList piece.stream).error? = none →
      ((u.appendList piece.stream).state.appendList cs).map reading =
        (u.appendList piece.stream).state.reading.readAll (u.appendList piece.stream).state
          pieces) :
    (u.appendList (piece.stream ++ cs)).map reading = u.reading.readAll u (piece :: pieces) := by
  rw [appendList_append, Reading.readAll, ← hpiece]
  exact Outcome.map_andThen hrest

/-- **A unit at rest reads a stream as its pieces are read.**  The induction is on the cutting.
Between two pieces the unit is at rest, which is what keeps lexer and draft in step: only then
does a start mark find no payload in progress and an end mark no reference to close. -/
theorem AtRest.map_reading_appendList (hu : u.AtRest) (cs : List Char) :
    (u.appendList cs).map reading = u.reading.readAll u (cut cs) := by
  fun_induction cut cs generalizing u with
  | case1 => rfl
  | case2 rest h =>
      have hunclosed := hu.reading_unclosed (endMark_notMem_of_dropWhile h)
      rw [StreamPiece.stream] at hunclosed
      rw [hunclosed]
      rfl
  | case3 rest d after h ih =>
      obtain ⟨hpiece, hrest⟩ := hu.reading_reference (endMark_notMem_takeWhile rest)
      have hsplit : Reference.startMark :: rest =
          (StreamPiece.reference (rest.takeWhile (· ≠ Reference.endMark))).stream ++ after := by
        have hrest := eq_append_of_dropWhile h
        simp only [StreamPiece.stream, List.cons_append, List.append_assoc, List.nil_append]
        rw [← hrest]
      rw [hsplit]
      exact map_reading_appendList_piece _ hpiece fun hok => ih (hrest hok)
  | case4 rest hstart ih =>
      -- the run stops here, so the rest of the stream does not matter
      have hstray := hu.reading_strayEnd
      rw [← appendList_singleton] at hstray
      have hfails : (u.appendList [Reference.endMark]).error? ≠ none := by
        rw [← Outcome.error?_map reading, hstray]
        simp
      exact map_reading_appendList_piece .strayEnd hstray fun hok => absurd hok hfails
  | case5 c rest hstart hend ih =>
      obtain ⟨hpiece, hrest⟩ := hu.append_plain hstart hend
      rw [← appendList_singleton] at hpiece hrest
      exact map_reading_appendList_piece (.plain c) hpiece fun hok => ih (hrest hok)

/-- A text without marks is read character by character. -/
theorem AtRest.map_reading_of_markFree (hu : u.AtRest) {cs : List Char} (h : MarkFree cs) :
    (u.appendList cs).map reading = Outcome.each Reading.readChar u.reading cs := by
  rw [hu.map_reading_appendList, cut_of_markFree h, Reading.readAll_plain]

/-! ## A fresh unit -/

variable {visible : Visibility} {target : TypeName} {companions : List TypeName}
  {features : Features}

theorem atRest_of_start (h : start visible target companions features = .ok u) : u.AtRest := by
  obtain ⟨-, scope, -, rfl⟩ := start_eq_ok_iff.1 h
  exact ⟨rfl, rfl, rfl⟩

theorem reading_of_start (h : start visible target companions features = .ok u) :
    u.reading = ⟨preamble target, .normal, 0⟩ := by
  obtain ⟨-, scope, -, rfl⟩ := start_eq_ok_iff.1 h
  rfl

/-- **What a stream makes of a fresh unit, whatever the stream is.**  The unit reads the pieces
of the stream, and its text is the preamble with all that they write.  If the run fails, then
at the first piece that is a mistake, and with the error that the mistake is. -/
theorem appendText_start (h : start visible target companions features = .ok u) (s : String) :
    (u.appendText s).map reading =
        Reading.readAll u ⟨preamble target, .normal, 0⟩ (cut s.toList) ∧
      ∀ e, (u.appendText s).error? = some e →
        ∃ done piece rest r, cut s.toList = done ++ piece :: rest ∧
          Reading.readAll u ⟨preamble target, .normal, 0⟩ done = .ok r ∧ r.Refuses piece e := by
  have hread : (u.appendText s).map reading =
      Reading.readAll u ⟨preamble target, .normal, 0⟩ (cut s.toList) := by
    rw [← reading_of_start h]
    exact (atRest_of_start h).map_reading_appendList s.toList
  refine ⟨hread, fun e he => Reading.exists_refused ?_⟩
  rw [← hread, Outcome.error?_map]
  exact he

/-- Of two references with one simple name the second is spelled in full, and the brace after
the block has been closed is an error at its place in the text. -/
theorem appendText_start_widget :
    ∃ u, start Visibility.nothing ⟨["com", "example"], ["Widget"]⟩ [] .empty = .ok u ∧
      (u.appendText "\x7b\uE000java.util:List\uE001 \uE000java.awt.List\uE001/\x7d\x7d").map
          reading =
        .fail ⟨preamble ⟨["com", "example"], ["Widget"]⟩ ++ "\x7bList java.awt.List/\x7d\x7d",
            .normal, 0⟩
          (.unbalancedClose
            (preamble ⟨["com", "example"], ["Widget"]⟩ ++ "\x7bList java.awt.List/\x7d\x7d")
            ⟨81, 1⟩) := by
  have hstart := start_nothing ⟨["com", "example"], ["Widget"]⟩ .empty (by decide)
  refine ⟨_, hstart, ?_⟩
  rw [(appendText_start hstart _).1]
  decide +kernel

end CompilationUnit
end JavaUnit
