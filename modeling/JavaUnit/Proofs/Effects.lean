import JavaUnit.Draft

/-!
# What one character does to a draft

An event is taken in one of a few ways, and `Draft.Taken` has a constructor for each, with what
the draft was like and what it is after.  `Draft.taken` says that there are no others, so that what
holds of any event is shown by cases on them and not by opening the definitions again.

The equations that this rests on come first, by kind of event.  The text is dealt with beside the
definitions.
-/

namespace JavaUnit
namespace Draft

/-! ## References -/

/-- While a reference is read, its characters are collected and nothing else happens. -/
theorem readReference_of_some {d : Draft} {payload : String} {region : Region}
    (h : d.reference? = some (payload, region)) (c : Char) :
    d.readReference c = { d with reference? := some (payload.push c, region) } := by
  simp [readReference, h]

theorem readReference_of_none {d : Draft} (h : d.reference? = none) (c : Char) :
    d.readReference c = { d with text := d.text.push c } := by
  simp [readReference, h]

/-- The end of a reference that names a type. -/
theorem endReference_of_parse {d : Draft} {payload : String} {region : Region} {q : TypeName}
    (h : d.reference? = some (payload, region)) (hq : TypeName.parse payload = .ok q) :
    d.endReference = .ok ({ d with reference? := none }.writeReference q region) := by
  have hdecode : Reference.decode payload = .ok q := by
    rw [Reference.decode, hq]
    rfl
  simp [endReference, h, hdecode]

/-- The end of a reference that names no type. -/
theorem endReference_of_parse_error {d : Draft} {payload : String} {region : Region}
    {cause : NameError} (h : d.reference? = some (payload, region))
    (he : TypeName.parse payload = .error cause) :
    d.endReference =
      .fail { d with reference? := none } (.malformedReference payload cause) := by
  have hdecode : Reference.decode payload = .error (.malformedReference payload cause) := by
    rw [Reference.decode, he]
    rfl
  simp [endReference, h, hdecode]

/-- The end of a reference that never started. -/
theorem endReference_of_none {d : Draft} (h : d.reference? = none) :
    d.endReference = .fail d (.strayReferenceEnd d.size) := by
  simp [endReference, h]

/-! ## Opening a block -/

/-- The draft with the brace of the next block written. -/
def withOpenBrace (d : Draft) : Draft :=
  { d with text := d.text.push '{', header := d.header.openBlock.2 }

theorem openBlock_of_unnamed {d : Draft} (h : d.header.openBlock.1 = none) :
    d.openBlock = d.withOpenBrace.push .code := by
  simp [openBlock, withOpenBrace, h]

theorem openBlock_of_declared {d : Draft} {simple : String} {q : TypeName}
    (hname : d.header.openBlock.1 = some simple) (hq : d.declared simple = .ok q) :
    d.openBlock = (d.withOpenBrace.declareType q).push (.type q) := by
  have hq' : d.withOpenBrace.declared simple = .ok q := hq
  simp [openBlock, hname, ← withOpenBrace.eq_1, hq']

/-- A name that no type can have here declares nothing. -/
theorem openBlock_of_undeclared {d : Draft} {simple : String} {e : NameError}
    (hname : d.header.openBlock.1 = some simple) (he : d.declared simple = .error e) :
    d.openBlock = d.withOpenBrace.push .code := by
  have he' : d.withOpenBrace.declared simple = .error e := he
  simp [openBlock, hname, ← withOpenBrace.eq_1, he']

/-- A block either belongs to the type that the header before it declares, or is a block of
code. -/
theorem openBlock_cases (d : Draft) :
    d.openBlock = d.withOpenBrace.push .code ∨
      ∃ simple q, d.header.openBlock.1 = some simple ∧ d.declared simple = .ok q ∧
        d.openBlock = (d.withOpenBrace.declareType q).push (.type q) := by
  cases hname : d.header.openBlock.1 with
  | none => exact .inl (openBlock_of_unnamed hname)
  | some simple =>
      cases hq : d.declared simple with
      | error e => exact .inl (openBlock_of_undeclared hname hq)
      | ok q => exact .inr ⟨simple, q, rfl, hq, openBlock_of_declared hname hq⟩

@[simp] theorem depth_openBlock (d : Draft) : d.openBlock.depth = d.depth + 1 := by
  rcases openBlock_cases d with h | ⟨simple, q, -, -, h⟩ <;> rw [h] <;> rfl

@[simp] theorem reference?_openBlock (d : Draft) : d.openBlock.reference? = d.reference? := by
  rcases openBlock_cases d with h | ⟨simple, q, -, -, h⟩ <;> rw [h] <;> rfl

@[simp] theorem failedAt?_openBlock (d : Draft) : d.openBlock.failedAt? = d.failedAt? := by
  rcases openBlock_cases d with h | ⟨simple, q, -, -, h⟩ <;> rw [h] <;> rfl

/-! ## Closing a block -/

/-- With no block open a `}` is written and is an error. -/
theorem closeBlock_of_depth_eq_zero {d : Draft} (h : d.depth = 0) :
    d.closeBlock =
      .fail { d with text := d.text.push '}', header := d.header.closeBlock }
        (.unbalancedClose (d.text.push '}') ⟨d.size, 1⟩) := by
  have hblocks : d.blocks = [] := List.eq_nil_of_length_eq_zero h
  simp [closeBlock, hblocks]

/-- With a block open a `}` closes one. -/
theorem closeBlock_of_depth_eq_succ {d : Draft} {n : Nat} (h : d.depth = n + 1) :
    d.closeBlock =
      .ok { d with
        text := d.text.push '}'
        header := d.header.closeBlock
        blocks := d.blocks.tail
        shadows := d.shadows.filter (·.depth ≤ n) } := by
  cases hblocks : d.blocks with
  | nil => simp [depth, hblocks] at h
  | cons b blocks =>
      have hn : blocks.length = n := by simpa [depth, hblocks] using h
      simp [closeBlock, hblocks, hn]

/-! ## One event -/

/-- All that can become of a draft that takes an event. -/
inductive Taken (d : Draft) : Event → Outcome Draft EmitError → Prop where
  | written (c : Char) (region : Region) : Taken d (.text c region) (.ok (d.writeChar c region))
  | openedCode : Taken d .blockOpen (.ok (d.withOpenBrace.push .code))
  | openedType {simple : String} {q : TypeName} (hname : d.header.openBlock.1 = some simple)
      (hq : d.declared simple = .ok q) :
      Taken d .blockOpen (.ok ((d.withOpenBrace.declareType q).push (.type q)))
  | closed {n : Nat} (hdepth : d.depth = n + 1) :
      Taken d .blockClose
        (.ok { d with
          text := d.text.push '}'
          header := d.header.closeBlock
          blocks := d.blocks.tail
          shadows := d.shadows.filter (·.depth ≤ n) })
  | unbalanced (hdepth : d.depth = 0) :
      Taken d .blockClose
        (.fail { d with text := d.text.push '}', header := d.header.closeBlock }
          (.unbalancedClose (d.text.push '}') ⟨d.size, 1⟩))
  | started (region : Region) : Taken d (.referenceStart region) (.ok (d.startReference region))
  | collected (c : Char) {payload : String} {region : Region}
      (hpayload : d.reference? = some (payload, region)) :
      Taken d (.referenceChar c) (.ok { d with reference? := some (payload.push c, region) })
  | strayed (c : Char) (hpayload : d.reference? = none) :
      Taken d (.referenceChar c) (.ok { d with text := d.text.push c })
  | strayEnd (hpayload : d.reference? = none) :
      Taken d .referenceEnd (.fail d (.strayReferenceEnd d.size))
  | malformed {payload : String} {region : Region} {cause : NameError}
      (hpayload : d.reference? = some (payload, region))
      (hparse : TypeName.parse payload = .error cause) :
      Taken d .referenceEnd
        (.fail { d with reference? := none } (.malformedReference payload cause))
  | replaced {payload : String} {region : Region} {q : TypeName}
      (hpayload : d.reference? = some (payload, region)) (hparse : TypeName.parse payload = .ok q) :
      Taken d .referenceEnd (.ok ({ d with reference? := none }.writeReference q region))

/-- **Every event is taken in one of these ways.**  What holds of an event is shown by cases on
them. -/
theorem taken (d : Draft) (event : Event) : d.Taken event (d.take event) := by
  cases event with
  | text c region => exact .written c region
  | blockOpen =>
      show d.Taken .blockOpen (.ok d.openBlock)
      rcases openBlock_cases d with h | ⟨simple, q, hname, hq, h⟩
      · rw [h]
        exact .openedCode
      · rw [h]
        exact .openedType hname hq
  | blockClose =>
      show d.Taken .blockClose d.closeBlock
      cases hdepth : d.depth with
      | zero =>
          rw [closeBlock_of_depth_eq_zero hdepth]
          exact .unbalanced hdepth
      | succ n =>
          rw [closeBlock_of_depth_eq_succ hdepth]
          exact .closed hdepth
  | referenceStart region => exact .started region
  | referenceChar c =>
      show d.Taken (.referenceChar c) (.ok (d.readReference c))
      cases hpayload : d.reference? with
      | none =>
          rw [readReference_of_none hpayload]
          exact .strayed c hpayload
      | some reference =>
          rw [readReference_of_some hpayload]
          exact .collected c hpayload
  | referenceEnd =>
      show d.Taken .referenceEnd d.endReference
      cases hpayload : d.reference? with
      | none =>
          rw [endReference_of_none hpayload]
          exact .strayEnd hpayload
      | some reference =>
          obtain ⟨payload, region⟩ := reference
          cases hparse : TypeName.parse payload with
          | error cause =>
              rw [endReference_of_parse_error hpayload hparse]
              exact .malformed hpayload hparse
          | ok q =>
              rw [endReference_of_parse hpayload hparse]
              exact .replaced hpayload hparse

/-! ## The first failure -/

/-- On a draft that has not failed, an event that is taken is all that happens. -/
theorem handle_eq_ok {d d' : Draft} {event : Event} (h : d.failedAt? = none)
    (htaken : d.take event = .ok d') : d.handle event = .ok d' := by
  rw [handle_of_taken h (by rw [htaken]; rfl), htaken]

/-- On a draft that has not failed, an event that is refused leaves a record. -/
theorem handle_eq_fail {d d' : Draft} {event : Event} {e : EmitError} (h : d.failedAt? = none)
    (hrefused : d.take event = .fail d' e) :
    d.handle event = .fail { d' with failedAt? := some d'.size } e := by
  rw [handle_of_refused h (by rw [hrefused]; rfl), hrefused]
  rfl

/-- Taking an event does not touch the record of a failure. -/
theorem failedAt?_take (d : Draft) (event : Event) :
    (d.take event).state.failedAt? = d.failedAt? := by
  have htaken := d.taken event
  generalize d.take event = o at htaken ⊢
  cases htaken <;> rfl

/-- On a draft that has not failed, an event is refused if it cannot be taken. -/
theorem error?_handle {d : Draft} (h : d.failedAt? = none) (event : Event) :
    (d.handle event).error? = (d.take event).error? := by
  cases herror : (d.take event).error? with
  | none => rw [handle_of_taken h herror, herror]
  | some e => rw [handle_of_refused h herror, Outcome.error?_fail]

/-- Taken or refused, an event leaves what it makes of the draft; only the record of a failure
may come on top. -/
theorem state_handle {d : Draft} (h : d.failedAt? = none) (event : Event) :
    ∃ failure, (d.handle event).state = { (d.take event).state with failedAt? := failure } := by
  cases herror : (d.take event).error? with
  | none => exact ⟨_, by rw [handle_of_taken h herror]⟩
  | some e => exact ⟨_, by rw [handle_of_refused h herror]; rfl⟩

end Draft
end JavaUnit
