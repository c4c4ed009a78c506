import JavaUnit.Proofs.Ownership

/-!
# A spelling that is asked for ahead

To ask for a spelling before the reference comes may claim a simple name.  The question here is
who notices.  Two units are run side by side that agree in everything but what one simple name
stands for (`CompilationUnit.AgreeOff`), and as long as no reference to a type of that name comes
to its end, they go on like that.

The scope is looked up in two places.  A reference looks up the simple name of its type, which is
another one.  A member that is declared looks up its own, and that may be the one: then it gets the
name in one unit and not in the other.  But whether it does goes into the scope alone, and it is
declared in both.

`AgreeOff` is a relation between two states, and `Outcome.Alike` extends it to the two outcomes of a
step.  It is carried from an event (`Draft.AgreeOff.take`) to a character and from there to a stream
(`CompilationUnit.AgreeOff.appendList`).
-/

namespace JavaUnit

/-- Two outcomes with states that are related and with the same error, if there is one. -/
structure Outcome.Alike {σ ε : Type} (R : σ → σ → Prop) (o o' : Outcome σ ε) : Prop where
  state : R o.state o'.state
  error? : o.error? = o'.error?

namespace Scope

variable {y : String} {s t : Scope} {q : TypeName}

/-! ## Scopes -/

/-- Two scopes in which every simple name but `y` stands for the same. -/
def AgreeOff (y : String) (s t : Scope) : Prop :=
  ∀ simple, simple ≠ y → s.binding? simple = t.binding? simple

theorem AgreeOff.refl (y : String) (s : Scope) : s.AgreeOff y s := fun _ _ => rfl

/-- To declare a type matters to its own simple name alone. -/
theorem agreeOff_declare (s : Scope) (q : TypeName) : s.AgreeOff q.simpleName (s.declare q).2 := by
  intro simple hne
  rw [binding?_declare, if_neg hne.symm, Option.or_none]

/-- The same type may be declared in both, also one with the simple name that they differ in. -/
theorem AgreeOff.declare (h : s.AgreeOff y t) (q : TypeName) :
    (s.declare q).2.AgreeOff y (t.declare q).2 := by
  intro simple hne
  rw [binding?_declare, binding?_declare, h simple hne]

theorem AgreeOff.standing (h : s.AgreeOff y t) (hq : q.simpleName ≠ y) :
    s.standing q = t.standing q := by
  rw [Scope.standing, Scope.standing, h q.simpleName hq]

/-- A type with another simple name is spelled the same way in both. -/
theorem AgreeOff.spell (h : s.AgreeOff y t) (hq : q.simpleName ≠ y) :
    (s.spell q).1 = (t.spell q).1 ∧ (s.spell q).2.AgreeOff y (t.spell q).2 := by
  constructor
  · simp only [Scope.spell, Scope.declare, h.standing hq]
    cases t.standing q <;> rfl
  · rw [spell_snd, spell_snd]
    exact h.declare q

end Scope

namespace Draft

variable {y : String} {d e : Draft} {q : TypeName}

/-! ## Drafts -/

/-- Two drafts that are the same but for what `y` stands for. -/
inductive AgreeOff (y : String) (d : Draft) : Draft → Prop where
  | withScope {scope : Scope} (h : d.scope.AgreeOff y scope) : AgreeOff y d { d with scope }

theorem AgreeOff.spelling (h : d.AgreeOff y e) (hq : q.simpleName ≠ y) :
    (d.spelling q).1 = (e.spelling q).1 ∧ (d.spelling q).2.AgreeOff y (e.spelling q).2 := by
  cases h with
  | @withScope scope h =>
      have hshadowed : isShadowed { d with scope } q = d.isShadowed q := rfl
      unfold Draft.spelling
      rw [hshadowed]
      cases d.isShadowed q with
      | true => exact ⟨rfl, h⟩
      | false => exact h.spell hq

/-- Other types are spelled the same way, so the same is written for them. -/
theorem AgreeOff.writeReference (h : d.AgreeOff y e) (hq : q.simpleName ≠ y) (region : Region) :
    (d.writeReference q region).AgreeOff y (e.writeReference q region) := by
  obtain ⟨hspelling, hscope⟩ := h.spelling hq
  cases h with
  | @withScope scope h =>
      have hwrite : Draft.writeReference { d with scope } q region =
          { d.writeReference q region with scope := (Draft.spelling { d with scope } q).2 } := by
        simp only [Draft.writeReference, spell, hspelling]
      rw [hwrite]
      exact .withScope hscope

/-- Whether a type gets its simple name shows in the scope alone. -/
theorem AgreeOff.declareType (h : d.AgreeOff y e) (q : TypeName) :
    (d.declareType q).AgreeOff y (e.declareType q) := by
  cases h with
  | @withScope scope h =>
      unfold Draft.declareType
      by_cases hmember : d.blocks.all (·.kind.isType) = true
      · simp only [hmember, if_true]
        exact .withScope (h.declare q)
      · simp only [hmember]
        exact .withScope h

theorem AgreeOff.push (h : d.AgreeOff y e) (kind : BlockKind) :
    (d.push kind).AgreeOff y (e.push kind) := by
  cases h with
  | withScope h => exact .withScope h

theorem AgreeOff.withOpenBrace (h : d.AgreeOff y e) :
    d.withOpenBrace.AgreeOff y e.withOpenBrace := by
  cases h with
  | withScope h => exact .withScope h

/-- What a block belongs to is told by the header and the blocks around it, not by the scope. -/
theorem AgreeOff.openBlock (h : d.AgreeOff y e) : d.openBlock.AgreeOff y e.openBlock := by
  have hheader : e.header = d.header := by
    cases h
    rfl
  have hdeclared (simple : String) : e.declared simple = d.declared simple := by
    cases h
    rfl
  cases hname : d.header.openBlock.1 with
  | none =>
      have hname' : e.header.openBlock.1 = none := by rw [hheader, hname]
      rw [openBlock_of_unnamed hname, openBlock_of_unnamed hname']
      exact h.withOpenBrace.push .code
  | some simple =>
      have hname' : e.header.openBlock.1 = some simple := by rw [hheader, hname]
      cases hq : d.declared simple with
      | error cause =>
          have hq' : e.declared simple = .error cause := by rw [hdeclared, hq]
          rw [openBlock_of_undeclared hname hq, openBlock_of_undeclared hname' hq']
          exact h.withOpenBrace.push .code
      | ok q =>
          have hq' : e.declared simple = .ok q := by rw [hdeclared, hq]
          rw [openBlock_of_declared hname hq, openBlock_of_declared hname' hq']
          exact (h.withOpenBrace.declareType q).push (.type q)

theorem AgreeOff.closeBlock (h : d.AgreeOff y e) :
    Outcome.Alike (AgreeOff y) d.closeBlock e.closeBlock := by
  cases h with
  | @withScope scope h =>
      cases hdepth : d.depth with
      | zero =>
          have hdepth' : depth { d with scope } = 0 := hdepth
          rw [closeBlock_of_depth_eq_zero hdepth, closeBlock_of_depth_eq_zero hdepth']
          exact ⟨.withScope h, rfl⟩
      | succ n =>
          have hdepth' : depth { d with scope } = n + 1 := hdepth
          rw [closeBlock_of_depth_eq_succ hdepth, closeBlock_of_depth_eq_succ hdepth']
          exact ⟨.withScope h, rfl⟩

theorem AgreeOff.reference? (h : d.AgreeOff y e) : e.reference? = d.reference? := by
  cases h
  rfl

theorem AgreeOff.readReference (h : d.AgreeOff y e) (c : Char) :
    (d.readReference c).AgreeOff y (e.readReference c) := by
  cases hpayload : d.reference? with
  | none =>
      rw [readReference_of_none hpayload, readReference_of_none (h.reference?.trans hpayload)]
      cases h with
      | withScope h => exact .withScope h
  | some reference =>
      rw [readReference_of_some hpayload, readReference_of_some (h.reference?.trans hpayload)]
      cases h with
      | withScope h => exact .withScope h

/-- A reference may end in both unless it names a type with the simple name that they differ in. -/
theorem AgreeOff.endReference (h : d.AgreeOff y e)
    (hother : ∀ payload region q, d.reference? = some (payload, region) →
      TypeName.parse payload = .ok q → q.simpleName ≠ y) :
    Outcome.Alike (AgreeOff y) d.endReference e.endReference := by
  have hsize : e.size = d.size := by
    cases h
    rfl
  have hread : AgreeOff y { d with reference? := none } { e with reference? := none } := by
    cases h with
    | withScope h => exact .withScope h
  cases hpayload : d.reference? with
  | none =>
      have hpayload' : e.reference? = none := h.reference?.trans hpayload
      rw [endReference_of_none hpayload, endReference_of_none hpayload', hsize]
      exact ⟨h, rfl⟩
  | some reference =>
      obtain ⟨payload, region⟩ := reference
      have hpayload' : e.reference? = some (payload, region) := h.reference?.trans hpayload
      cases hparse : TypeName.parse payload with
      | error cause =>
          rw [endReference_of_parse_error hpayload hparse,
            endReference_of_parse_error hpayload' hparse]
          exact ⟨hread, rfl⟩
      | ok q =>
          rw [endReference_of_parse hpayload hparse, endReference_of_parse hpayload' hparse]
          exact ⟨hread.writeReference (hother payload region q hpayload hparse) region, rfl⟩

/-- **Two drafts that differ in what `y` stands for take an event alike**, unless it ends a
reference to a type of that simple name. -/
theorem AgreeOff.take (h : d.AgreeOff y e) {event : Event}
    (hother : event = .referenceEnd → ∀ payload region q,
      d.reference? = some (payload, region) → TypeName.parse payload = .ok q → q.simpleName ≠ y) :
    Outcome.Alike (AgreeOff y) (d.take event) (e.take event) := by
  cases event with
  | text c region =>
      refine ⟨?_, rfl⟩
      cases h with
      | withScope h => exact .withScope h
  | blockOpen => exact ⟨h.openBlock, rfl⟩
  | blockClose => exact h.closeBlock
  | referenceStart region =>
      refine ⟨?_, rfl⟩
      cases h with
      | withScope h => exact .withScope h
  | referenceChar c => exact ⟨h.readReference c, rfl⟩
  | referenceEnd => exact h.endReference (hother rfl)

theorem AgreeOff.handle (h : d.AgreeOff y e) {event : Event}
    (hother : d.failedAt? = none → event = .referenceEnd → ∀ payload region q,
      d.reference? = some (payload, region) → TypeName.parse payload = .ok q → q.simpleName ≠ y) :
    Outcome.Alike (AgreeOff y) (d.handle event) (e.handle event) := by
  have hfailedAt : e.failedAt? = d.failedAt? := by
    cases h
    rfl
  cases hfailed : d.failedAt? with
  | some offset =>
      rw [handle_of_failed hfailed, handle_of_failed (hfailedAt.trans hfailed)]
      exact ⟨h, rfl⟩
  | none =>
      have hfailed' : e.failedAt? = none := hfailedAt.trans hfailed
      obtain ⟨hstate, herror?⟩ := h.take (hother hfailed)
      cases herror : (d.take event).error? with
      | none =>
          have herror' : (e.take event).error? = none := herror?.symm.trans herror
          rw [handle_of_taken hfailed herror, handle_of_taken hfailed' herror']
          exact ⟨hstate, herror?⟩
      | some cause =>
          have herror' : (e.take event).error? = some cause := herror?.symm.trans herror
          rw [handle_of_refused hfailed herror, handle_of_refused hfailed' herror']
          refine ⟨?_, rfl⟩
          generalize (e.take event).state = after at hstate
          cases hstate with
          | withScope h => exact .withScope h

end Draft

namespace CompilationUnit

variable {y : String} {u v : CompilationUnit} {c : Char} {cs : List Char}

/-! ## Units -/

/-- Two units that are the same but for what `y` stands for. -/
inductive AgreeOff (y : String) (u : CompilationUnit) : CompilationUnit → Prop where
  | withDraft {draft : Draft} (h : u.draft.AgreeOff y draft) : AgreeOff y u { u with draft }

theorem AgreeOff.text (h : u.AgreeOff y v) : u.text = v.text := by
  cases h with
  | withDraft h =>
      cases h
      rfl

/-- To ask for the spelling of a type matters to its simple name alone. -/
theorem agreeOff_spell (u : CompilationUnit) (q : TypeName) :
    u.AgreeOff q.simpleName (u.spell q).2 := by
  refine .withDraft (.withScope ?_)
  rcases u.draft.scope_spelling_cases q with hscope | hscope
  · rw [hscope]
    exact .refl _ _
  · rw [hscope]
    exact Scope.agreeOff_declare _ _

/-- The same mention is completed in both. -/
theorem AgreeOff.mention? (h : u.AgreeOff y v) (c : Char) :
    v.mention? c = (u.mention? c).map fun m => ⟨v, m.type, (v.append c).state⟩ := by
  ext m
  rw [Option.map_eq_some_iff, mention?_eq_some_iff]
  cases h with
  | withDraft h =>
      cases h with
      | withScope h =>
          constructor
          · rintro ⟨hevent, hfailed, payload, region, hpayload, hparse, hm⟩
            exact ⟨⟨u, m.type, (u.append c).state⟩,
              mention?_eq_some_iff.2 ⟨hevent, hfailed, payload, region, hpayload, hparse, rfl⟩,
              hm.symm⟩
          · rintro ⟨n, hn, rfl⟩
            obtain ⟨hevent, hfailed, payload, region, hpayload, hparse, -⟩ :=
              mention?_eq_some_iff.1 hn
            exact ⟨hevent, hfailed, payload, region, hpayload, hparse, rfl⟩

/-- And if it is not by the simple name that they differ in, it is spelled the same way. -/
theorem AgreeOff.spelling_mention? (h : u.AgreeOff y v)
    (hother : ∀ m, u.mention? c = some m → m.type.simpleName ≠ y) :
    (u.mention? c).map (fun m => (m.type, m.spelling)) =
      (v.mention? c).map (fun m => (m.type, m.spelling)) := by
  rw [h.mention? c, Option.map_map]
  refine Option.map_congr fun m hm => ?_
  have hspelling : (u.spell m.type).1 = (v.spell m.type).1 := by
    cases h with
    | withDraft h => exact (h.spelling (hother m hm)).1
  obtain ⟨hbefore, -⟩ := append_of_mention? hm
  show (m.type, (m.before.spell m.type).1) = (m.type, (v.spell m.type).1)
  rw [hbefore, hspelling]

theorem AgreeOff.append (h : u.AgreeOff y v)
    (hother : ∀ m, u.mention? c = some m → m.type.simpleName ≠ y) :
    Outcome.Alike (AgreeOff y) (u.append c) (v.append c) := by
  cases h with
  | @withDraft draft h =>
      have halike : Outcome.Alike (Draft.AgreeOff y) (u.draft.handle (u.lexer.classify c).1)
          (draft.handle (u.lexer.classify c).1) := by
        refine h.handle fun hfailed hevent payload region q hpayload hparse => ?_
        exact hother ⟨u, q, (u.append c).state⟩
          (mention?_eq_some_iff.2 ⟨hevent, hfailed, payload, region, hpayload, hparse, rfl⟩)
      exact ⟨.withDraft halike.state, halike.error?⟩

/-- **Two units that differ in what `y` stands for read a stream alike**, up to an error if there
is one, unless a reference to a type of that simple name comes to its end in it.  The induction is
on the stream, for all pairs of units that agree. -/
theorem AgreeOff.appendList (h : u.AgreeOff y v)
    (hother : ∀ m ∈ u.mentionsIn cs, m.type.simpleName ≠ y) :
    Outcome.Alike (AgreeOff y) (u.appendList cs) (v.appendList cs) ∧
      (u.mentionsIn cs).map (fun m => (m.type, m.spelling)) =
        (v.mentionsIn cs).map (fun m => (m.type, m.spelling)) := by
  induction cs generalizing u v with
  | nil => exact ⟨⟨h, rfl⟩, rfl⟩
  | cons c cs ih =>
      have hfirst : ∀ m, u.mention? c = some m → m.type.simpleName ≠ y := by
        intro m hm
        exact hother m (mem_mentionsIn_cons.2 (.inl hm))
      have hspelling : (u.mention? c).toList.map (fun m => (m.type, m.spelling)) =
          (v.mention? c).toList.map (fun m => (m.type, m.spelling)) := by
        rw [← Option.toList_map, ← Option.toList_map, h.spelling_mention? hfirst]
      obtain ⟨hstate, herror?⟩ := h.append hfirst
      rw [appendList_cons, appendList_cons, mentionsIn, mentionsIn, List.map_append,
        List.map_append, hspelling]
      cases herror : (u.append c).error? with
      | none =>
          have herror' : (v.append c).error? = none := herror?.symm.trans herror
          obtain ⟨halike, hspellings⟩ := ih hstate fun m hm =>
            hother m (mem_mentionsIn_cons.2 (.inr ⟨herror, hm⟩))
          rw [Outcome.andThen_of_ok herror, Outcome.andThen_of_ok herror', herror', hspellings]
          exact ⟨halike, rfl⟩
      | some cause =>
          have herror' : (v.append c).error? = some cause := herror?.symm.trans herror
          rw [Outcome.andThen_of_error herror, Outcome.andThen_of_error herror', herror']
          exact ⟨⟨hstate, herror?⟩, rfl⟩

/-- **A spelling that is asked for ahead matters to its own simple name alone.**  Take any stream
in which no reference to a type of that simple name comes to its end.  Whether the spelling is
asked for before it or not, after every part of the stream the text, the open blocks, the lexer
and all the rest of the unit are the same, every other simple name stands for the same, the run
has failed with the same error or has not failed, and the types in it have been spelled in the
same way. -/
theorem agreeOff_spell_appendList (u : CompilationUnit) (q : TypeName) (cs : List Char)
    (hother : ∀ m ∈ u.mentionsIn cs, m.type.simpleName ≠ q.simpleName) :
    ∀ part, part <+: cs →
      Outcome.Alike (AgreeOff q.simpleName) (u.appendList part) ((u.spell q).2.appendList part) ∧
        (u.mentionsIn part).map (fun m => (m.type, m.spelling)) =
          ((u.spell q).2.mentionsIn part).map (fun m => (m.type, m.spelling)) := by
  intro part hpart
  refine (u.agreeOff_spell q).appendList fun m hm => hother m ?_
  exact mem_mentionsIn_of_prefix hpart hm

/-- A member named `List` gets its simple name, or it comes too late for it.  The text is the
same, and so is the error. -/
theorem agreeOff_spell_appendList_member :
    ∃ u cs, start Visibility.nothing ⟨["com", "example"], ["Widget"]⟩ [] .empty = .ok u ∧
      cs = "class Widget\x7bclass List\x7b\uE000java.util.Map\uE001 map;\x7d\x7d\x7d".toList ∧
      (∀ m ∈ u.mentionsIn cs, m.type.simpleName ≠ "List") ∧
      (u.appendList cs).state.scope.binding? "List" =
        some ⟨⟨["com", "example"], ["Widget", "List"]⟩, false⟩ ∧
      ((u.spell ⟨["java", "util"], ["List"]⟩).2.appendList cs).state.scope.binding? "List" =
        some ⟨⟨["java", "util"], ["List"]⟩, false⟩ ∧
      (u.appendList cs).state.text =
        ((u.spell ⟨["java", "util"], ["List"]⟩).2.appendList cs).state.text ∧
      (u.appendList cs).error? =
        ((u.spell ⟨["java", "util"], ["List"]⟩).2.appendList cs).error? ∧
      (u.appendList cs).error?.isSome := by
  have hstart := start_nothing ⟨["com", "example"], ["Widget"]⟩ .empty (by decide)
  have hother : ∀ m ∈ (fresh ⟨["com", "example"], ["Widget"]⟩ .empty
      (Scope.empty.claim ⟨["com", "example"], ["Widget"]⟩ true)).mentionsIn
        "class Widget\x7bclass List\x7b\uE000java.util.Map\uE001 map;\x7d\x7d\x7d".toList,
      m.type.simpleName ≠ "List" := by
    decide +kernel
  obtain ⟨⟨hstate, herror⟩, -⟩ :=
    agreeOff_spell_appendList _ ⟨["java", "util"], ["List"]⟩ _ hother _ (List.prefix_refl _)
  refine ⟨_, _, hstart, rfl, hother, ?_, ?_, hstate.text, herror, ?_⟩
  · decide +kernel
  · decide +kernel
  · decide +kernel

end CompilationUnit
end JavaUnit
