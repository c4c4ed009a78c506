import JavaUnit.Proofs.Mentions
import JavaUnit.Proofs.Stream

/-!
# The text before does not matter

A unit never looks back at what it has written.  What it needs of the text it keeps aside: the open
blocks, the scope, the header, the declared types.  So a unit with another text before its own
(`CompilationUnit.precededBy`) does the same as the unit itself, with the other text before
everything it writes, and fails where the unit fails.  Only the errors that tell a place in the text
tell another one (`EmitError.precededBy`).

For each operation that is an equation: to put a text before the unit and then operate is to operate
and then put it there.  The equations are proved from the inside out, for an event
(`Draft.take_precededBy`), for a character, for a stream, for an edit and for a run of edits
(`CompilationUnit.editAll_precededBy`).  A reference is spelled the same way in both
(`CompilationUnit.mentions_precededBy`).

Put together they compare two runs that differ in nothing but the text before them
(`CompilationUnit.alikeAfter_run`).
-/

namespace JavaUnit

namespace Outcome

variable {σ τ ε ε' : Type}

/-- The same outcome with its state seen through `f` and its error through `g`. -/
def bimap (f : σ → τ) (g : ε → ε') (o : Outcome σ ε) : Outcome τ ε' :=
  ⟨f o.state, o.error?.map g⟩

@[simp] theorem state_bimap (f : σ → τ) (g : ε → ε') (o : Outcome σ ε) :
    (o.bimap f g).state = f o.state := rfl

@[simp] theorem error?_bimap (f : σ → τ) (g : ε → ε') (o : Outcome σ ε) :
    (o.bimap f g).error? = o.error?.map g := rfl

@[simp] theorem bimap_ok (f : σ → τ) (g : ε → ε') (s : σ) :
    (ok s : Outcome σ ε).bimap f g = ok (f s) := rfl

/-- Two steps seen through `f` and `g`, if the second looks the same from everywhere. -/
theorem bimap_andThen {f : σ → τ} {g : ε → ε'} (o : Outcome σ ε) {next : σ → Outcome σ ε}
    {next' : τ → Outcome τ ε'} (h : ∀ s, next' (f s) = (next s).bimap f g) :
    (o.bimap f g).andThen next' = (o.andThen next).bimap f g := by
  obtain ⟨s, _ | e⟩ := o
  · exact h s
  · rfl

/-- A run seen through `f` and `g`, if every step looks the same. -/
theorem bimap_each {α : Type} {f : σ → τ} {g : ε → ε'} {step : σ → α → Outcome σ ε}
    {step' : τ → α → Outcome τ ε'} (h : ∀ s a, step' (f s) a = (step s a).bimap f g) (s : σ)
    (as : List α) : each step' (f s) as = (each step s as).bimap f g := by
  induction as generalizing s with
  | nil => rfl
  | cons a as ih =>
      rw [each_cons, each_cons, h]
      exact bimap_andThen _ ih

end Outcome

/-- The same error in a text with `s` before it. -/
def EmitError.precededBy (s : String) : EmitError → EmitError
  | .unbalancedClose text span =>
      .unbalancedClose (s ++ text) ⟨s.utf8ByteSize + span.offset, span.length⟩
  | .strayReferenceEnd offset => .strayReferenceEnd (s.utf8ByteSize + offset)
  | .poisoned offset => .poisoned (s.utf8ByteSize + offset)
  | e => e

/-- The same error in a text with `s` before it. -/
def BodyError.precededBy (s : String) : BodyError → BodyError
  | .emit cause => .emit (cause.precededBy s)
  | e => e

namespace Draft

/-! ## Drafts -/

/-- The same draft with `s` before its text. -/
def precededBy (s : String) (d : Draft) : Draft :=
  { d with text := s ++ d.text, failedAt? := d.failedAt?.map (s.utf8ByteSize + ·) }

variable (s : String) (d : Draft)

@[simp] theorem text_precededBy : (d.precededBy s).text = s ++ d.text := rfl

@[simp] theorem size_precededBy : (d.precededBy s).size = s.utf8ByteSize + d.size :=
  String.utf8ByteSize_append

theorem failedAt?_precededBy :
    (d.precededBy s).failedAt? = d.failedAt?.map (s.utf8ByteSize + ·) := rfl

theorem push_text_precededBy (c : Char) :
    (d.precededBy s).text.push c = s ++ d.text.push c := by
  rw [text_precededBy, String.push_eq_append, String.push_eq_append, String.append_assoc]

theorem spelling_precededBy (q : TypeName) : (d.precededBy s).spelling q = d.spelling q := rfl

theorem writeChar_precededBy (c : Char) (region : Region) :
    (d.precededBy s).writeChar c region = (d.writeChar c region).precededBy s := by
  simp only [writeChar, push_text_precededBy]
  rfl

theorem withOpenBrace_precededBy :
    (d.precededBy s).withOpenBrace = d.withOpenBrace.precededBy s := by
  rw [withOpenBrace, push_text_precededBy]
  rfl

/-- What a block belongs to is told by the header and the blocks around it. -/
theorem openBlock_precededBy : (d.precededBy s).openBlock = d.openBlock.precededBy s := by
  cases hname : d.header.openBlock.1 with
  | none =>
      have hname' : (d.precededBy s).header.openBlock.1 = none := hname
      rw [openBlock_of_unnamed hname, openBlock_of_unnamed hname', withOpenBrace_precededBy]
      rfl
  | some simple =>
      have hname' : (d.precededBy s).header.openBlock.1 = some simple := hname
      cases hq : d.declared simple with
      | error e =>
          have hq' : (d.precededBy s).declared simple = .error e := hq
          rw [openBlock_of_undeclared hname hq, openBlock_of_undeclared hname' hq',
            withOpenBrace_precededBy]
          rfl
      | ok q =>
          have hq' : (d.precededBy s).declared simple = .ok q := hq
          rw [openBlock_of_declared hname hq, openBlock_of_declared hname' hq',
            withOpenBrace_precededBy]
          rfl

theorem closeBlock_precededBy :
    (d.precededBy s).closeBlock = d.closeBlock.bimap (precededBy s) (EmitError.precededBy s) := by
  cases hdepth : d.depth with
  | zero =>
      have hdepth' : (d.precededBy s).depth = 0 := hdepth
      rw [closeBlock_of_depth_eq_zero hdepth, closeBlock_of_depth_eq_zero hdepth',
        push_text_precededBy, size_precededBy]
      rfl
  | succ n =>
      have hdepth' : (d.precededBy s).depth = n + 1 := hdepth
      rw [closeBlock_of_depth_eq_succ hdepth, closeBlock_of_depth_eq_succ hdepth',
        push_text_precededBy]
      rfl

theorem readReference_precededBy (c : Char) :
    (d.precededBy s).readReference c = (d.readReference c).precededBy s := by
  cases hpayload : d.reference? with
  | none =>
      have hpayload' : (d.precededBy s).reference? = none := hpayload
      rw [readReference_of_none hpayload, readReference_of_none hpayload', push_text_precededBy]
      rfl
  | some reference =>
      obtain ⟨payload, region⟩ := reference
      have hpayload' : (d.precededBy s).reference? = some (payload, region) := hpayload
      rw [readReference_of_some hpayload, readReference_of_some hpayload']
      rfl

theorem writeReference_precededBy (q : TypeName) (region : Region) :
    (d.precededBy s).writeReference q region = (d.writeReference q region).precededBy s := by
  simp only [writeReference, spell, spelling_precededBy, text_precededBy, String.append_assoc]
  rfl

theorem endReference_precededBy :
    (d.precededBy s).endReference =
      d.endReference.bimap (precededBy s) (EmitError.precededBy s) := by
  cases hpayload : d.reference? with
  | none =>
      have hpayload' : (d.precededBy s).reference? = none := hpayload
      rw [endReference_of_none hpayload, endReference_of_none hpayload', size_precededBy]
      rfl
  | some reference =>
      obtain ⟨payload, region⟩ := reference
      have hpayload' : (d.precededBy s).reference? = some (payload, region) := hpayload
      cases hparse : TypeName.parse payload with
      | ok q =>
          rw [endReference_of_parse hpayload hparse, endReference_of_parse hpayload' hparse,
            Outcome.bimap_ok, ← writeReference_precededBy]
          rfl
      | error cause =>
          rw [endReference_of_parse_error hpayload hparse,
            endReference_of_parse_error hpayload' hparse]
          rfl

theorem take_precededBy (event : Event) :
    (d.precededBy s).take event =
      (d.take event).bimap (precededBy s) (EmitError.precededBy s) := by
  cases event with
  | text c region => exact congrArg Outcome.ok (writeChar_precededBy s d c region)
  | blockOpen => exact congrArg Outcome.ok (openBlock_precededBy s d)
  | blockClose => exact closeBlock_precededBy s d
  | referenceStart region => rfl
  | referenceChar c => exact congrArg Outcome.ok (readReference_precededBy s d c)
  | referenceEnd => exact endReference_precededBy s d

theorem handle_precededBy (event : Event) :
    (d.precededBy s).handle event =
      (d.handle event).bimap (precededBy s) (EmitError.precededBy s) := by
  cases hfailed : d.failedAt? with
  | some offset =>
      have hfailed' : (d.precededBy s).failedAt? = some (s.utf8ByteSize + offset) := by
        rw [failedAt?_precededBy, hfailed, Option.map_some]
      rw [handle_of_failed hfailed, handle_of_failed hfailed']
      rfl
  | none =>
      have hfailed' : (d.precededBy s).failedAt? = none := by
        rw [failedAt?_precededBy, hfailed, Option.map_none]
      have htake := take_precededBy s d event
      cases herror : (d.take event).error? with
      | none =>
          have herror' : ((d.precededBy s).take event).error? = none := by
            rw [htake, Outcome.error?_bimap, herror, Option.map_none]
          rw [handle_of_taken hfailed herror, handle_of_taken hfailed' herror', htake]
      | some e =>
          have herror' : ((d.precededBy s).take event).error? = some (e.precededBy s) := by
            rw [htake, Outcome.error?_bimap, herror, Option.map_some]
          rw [handle_of_refused hfailed herror, handle_of_refused hfailed' herror', htake,
            Outcome.state_bimap, size_precededBy]
          rfl

end Draft

namespace CompilationUnit

/-! ## Units -/

/-- The same unit with `s` before its text. -/
def precededBy (s : String) (u : CompilationUnit) : CompilationUnit :=
  { u with draft := u.draft.precededBy s }

variable (s : String) (u : CompilationUnit)

@[simp] theorem text_precededBy : (u.precededBy s).text = s ++ u.text := rfl

@[simp] theorem isPoisoned_precededBy :
    (u.precededBy s).draft.isPoisoned = u.draft.isPoisoned :=
  Option.isSome_map

theorem append_precededBy (c : Char) :
    (u.precededBy s).append c =
      (u.append c).bimap (precededBy s) (EmitError.precededBy s) := by
  show Outcome.mk
      { u with
        draft := ((u.draft.precededBy s).handle (u.lexer.classify c).1).state
        lexer := (u.lexer.classify c).2 }
      ((u.draft.precededBy s).handle (u.lexer.classify c).1).error? = _
  rw [Draft.handle_precededBy]
  rfl

theorem appendList_precededBy (cs : List Char) :
    (u.precededBy s).appendList cs =
      (u.appendList cs).bimap (precededBy s) (EmitError.precededBy s) :=
  Outcome.bimap_each (append_precededBy s) u cs

end CompilationUnit

/-! ## Edits -/

namespace PercentTemplate

/-- A piece read before the rest does not mend the rest. -/
theorem eq_error_of_map {f : List Piece → List Piece} {read : Except EmitError (List Piece)}
    {e : EmitError} (h : read.map f = .error e) : read = .error e := by
  cases read with
  | error e' => exact congrArg Except.error (Except.error.inj h)
  | ok pieces => exact absurd h (by simp [Except.map])

/-- The only mistake in reading a percent template is a directive that there is not. -/
theorem exists_of_parse_eq_error {cs : List Char} {e : EmitError} (h : parse cs = .error e) :
    ∃ directive, e = .unknownDirective directive := by
  fun_induction parse cs with
  | case1 => exact absurd h (by simp)
  | case2 rest ih => exact ih (eq_error_of_map h)
  | case3 rest ih => exact ih (eq_error_of_map h)
  | case4 rest ih => exact ih (eq_error_of_map h)
  | case5 c rest => exact ⟨_, (Except.error.inj h).symm⟩
  | case6 => exact ⟨_, (Except.error.inj h).symm⟩
  | case7 c rest _ _ _ _ _ ih => exact ih (eq_error_of_map h)

end PercentTemplate

namespace CompilationUnit

variable (s : String) (u : CompilationUnit)

open PercentTemplate in
theorem add_precededBy (template : String) (arguments : List Argument) :
    (u.precededBy s).add template arguments =
      (u.add template arguments).bimap (precededBy s) (EmitError.precededBy s) := by
  cases hparse : parse template.toList with
  | error e =>
      obtain ⟨directive, rfl⟩ := exists_of_parse_eq_error hparse
      simp only [add, hparse]
      rfl
  | ok pieces =>
      simp only [add, hparse]
      split
      · rw [write_eq_appendList, write_eq_appendList, appendList_precededBy]
      · rfl

theorem addLine_precededBy (template : String) (arguments : List Argument) :
    (u.precededBy s).addLine template arguments =
      (u.addLine template arguments).bimap (precededBy s) (EmitError.precededBy s) := by
  rw [addLine, addLine, add_precededBy]
  exact Outcome.bimap_andThen _ fun v => append_precededBy s v '\n'

/-- Told as errors of a template, the errors of the unit change in the same way. -/
theorem mapError_of_eq_bimap {o o' : Outcome CompilationUnit EmitError}
    (h : o' = o.bimap (precededBy s) (EmitError.precededBy s)) :
    o'.mapError BodyError.emit =
      (o.mapError BodyError.emit).bimap (precededBy s) (BodyError.precededBy s) := by
  rw [h]
  obtain ⟨v, _ | e⟩ := o <;> rfl

theorem write_precededBy (piece : BodyTemplate.Piece) :
    BodyTemplate.write (u.precededBy s) piece =
      (BodyTemplate.write u piece).bimap (precededBy s) (BodyError.precededBy s) := by
  cases piece with
  | char c => exact mapError_of_eq_bimap s (append_precededBy s u c)
  | reference line name =>
      simp only [BodyTemplate.write]
      split
      · rfl
      · exact mapError_of_eq_bimap s (appendList_precededBy s u _)
  | unterminated line rest => rfl

/-- **An edit does the same whatever text stands before.** -/
theorem edit_precededBy (e : Edit) :
    (u.precededBy s).edit e = (u.edit e).bimap (precededBy s) (BodyError.precededBy s) := by
  cases e with
  | char c => exact mapError_of_eq_bimap s (append_precededBy s u c)
  | text t => exact mapError_of_eq_bimap s (appendList_precededBy s u _)
  | type q => exact mapError_of_eq_bimap s (appendList_precededBy s u _)
  | add template arguments => exact mapError_of_eq_bimap s (add_precededBy s u template arguments)
  | addLine template arguments =>
      exact mapError_of_eq_bimap s (addLine_precededBy s u template arguments)
  | render template => exact Outcome.bimap_each (write_precededBy s) u _
  | spell q => rfl

theorem editAll_precededBy (edits : List Edit) :
    (u.precededBy s).editAll edits = (u.editAll edits).precededBy s := by
  induction edits generalizing u with
  | nil => rfl
  | cons e edits ih =>
      show ((u.precededBy s).edit e).state.editAll edits = _
      rw [edit_precededBy, Outcome.state_bimap, ih]
      rfl

end CompilationUnit

/-! ## Mentions -/

/-- The same mention in a text with `s` before it. -/
def Mention.precededBy (s : String) (m : Mention) : Mention :=
  ⟨m.before.precededBy s, m.type, m.after.precededBy s⟩

@[simp] theorem Mention.spelling_precededBy (s : String) (m : Mention) :
    (m.precededBy s).spelling = m.spelling := rfl

namespace CompilationUnit

variable (s : String) (u : CompilationUnit)

theorem mention?_precededBy (c : Char) :
    (u.precededBy s).mention? c = (u.mention? c).map (Mention.precededBy s) := by
  have hlater : ((u.precededBy s).append c).state = (u.append c).state.precededBy s := by
    rw [append_precededBy, Outcome.state_bimap]
  have hlexer : (u.precededBy s).lexer = u.lexer := rfl
  have hpayload : (u.precededBy s).draft.reference? = u.draft.reference? := rfl
  have hfailed : (u.precededBy s).draft.failedAt? =
      u.draft.failedAt?.map (s.utf8ByteSize + ·) := rfl
  simp only [mention?, hlexer, hpayload, hfailed, hlater]
  cases (u.lexer.classify c).1 with
  | referenceEnd =>
      cases u.draft.failedAt? with
      | some offset => rfl
      | none =>
          cases u.draft.reference? with
          | none => rfl
          | some reference =>
              dsimp only [Option.map_none]
              cases TypeName.parse reference.1 with
              | ok q => rfl
              | error cause => rfl
  | _ => rfl

theorem mentionsIn_precededBy (cs : List Char) :
    (u.precededBy s).mentionsIn cs = (u.mentionsIn cs).map (Mention.precededBy s) := by
  induction cs generalizing u with
  | nil => rfl
  | cons c cs ih =>
      rw [mentionsIn, mentionsIn, mention?_precededBy, append_precededBy, Outcome.state_bimap,
        Outcome.error?_bimap, List.map_append]
      congr 1
      · cases u.mention? c with
        | none => rfl
        | some m => rfl
      · cases (u.append c).error? with
        | none => exact ih _
        | some e => rfl

theorem mentionsOf_precededBy (e : Edit) :
    (u.precededBy s).mentionsOf e = (u.mentionsOf e).map (Mention.precededBy s) := by
  cases e with
  | spell q => rfl
  | _ => exact mentionsIn_precededBy s u _

theorem mentions_precededBy (edits : List Edit) :
    (u.precededBy s).mentions edits = (u.mentions edits).map (Mention.precededBy s) := by
  induction edits generalizing u with
  | nil => rfl
  | cons e edits ih =>
      rw [mentions, mentions, mentionsOf_precededBy, edit_precededBy, Outcome.state_bimap, ih,
        List.map_append]

/-! ## Two texts before one unit -/

/-- Two units that agree in everything but the beginnings `s` and `t` of their texts. -/
structure AlikeAfter (s t : String) (u v : CompilationUnit) : Prop where
  target : u.target = v.target
  features : u.features = v.features
  lexer : u.lexer = v.lexer
  text : ∃ rest, u.text = s ++ rest ∧ v.text = t ++ rest
  blocks : u.draft.blocks = v.draft.blocks
  scope : u.scope = v.scope
  package : u.draft.package = v.draft.package
  header : u.draft.header = v.draft.header
  shadows : u.draft.shadows = v.draft.shadows
  reference? : u.draft.reference? = v.draft.reference?
  isPoisoned : u.draft.isPoisoned = v.draft.isPoisoned

theorem alikeAfter_precededBy (s t : String) (u : CompilationUnit) :
    AlikeAfter s t (u.precededBy s) (u.precededBy t) where
  target := rfl
  features := rfl
  lexer := rfl
  text := ⟨u.text, rfl, rfl⟩
  blocks := rfl
  scope := rfl
  package := rfl
  header := rfl
  shadows := rfl
  reference? := rfl
  isPoisoned := by rw [isPoisoned_precededBy, isPoisoned_precededBy]

/-- **With one text before it or another, a unit goes the same way.**  After the same edits the two
agree in everything but what stood before, they have spelled the same types in the same way, and the
next edit succeeds in both or fails in both with the same error. -/
theorem alikeAfter_run (s t : String) (u : CompilationUnit) (edits : List Edit) :
    AlikeAfter s t ((u.precededBy s).editAll edits) ((u.precededBy t).editAll edits) ∧
      ((u.precededBy s).mentions edits).map (fun m => (m.type, m.spelling)) =
        ((u.precededBy t).mentions edits).map (fun m => (m.type, m.spelling)) ∧
      ∀ e, ∃ error? : Option BodyError,
        (((u.precededBy s).editAll edits).edit e).error? = error?.map (·.precededBy s) ∧
        (((u.precededBy t).editAll edits).edit e).error? = error?.map (·.precededBy t) := by
  refine ⟨?_, ?_, fun e => ⟨((u.editAll edits).edit e).error?, ?_, ?_⟩⟩
  · rw [editAll_precededBy, editAll_precededBy]
    exact alikeAfter_precededBy s t _
  · rw [mentions_precededBy, mentions_precededBy, List.map_map, List.map_map]
    rfl
  · rw [editAll_precededBy, edit_precededBy]
    rfl
  · rw [editAll_precededBy, edit_precededBy]
    rfl

end CompilationUnit
end JavaUnit
