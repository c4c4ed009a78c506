import JavaUnit.Proofs.Mentions
import JavaUnit.Proofs.Runs

/-!
# After the first failure

A character is refused for one of three reasons (`Draft.Refusal`), and the refusal is local: it can
leave a brace in the text and drop the reference that was being read, and that is all.

From then on the draft is frozen.  Every character is refused, for having come too late, with the
length that the text had at the first failure (`append_of_failed`), and no edit gets further than
its first character.  The lexer still moves, but nobody heeds it.  Only the scope can change, by a
spelling that is asked for (`editAll_of_failed`).

## Runs without a failure

The first failure comes at the end of a run in which every character has been taken.
`CompilationUnit.Unbroken` describes such runs.  They are the runs that leave no failure on record
(`unbroken_iff`), and the failure after one is the first (`Unbroken.first_failure`).
-/

namespace JavaUnit

namespace Draft

/-! ## Refusals -/

/-- The events that a draft refuses, with the draft that is left and the reason. -/
inductive Refusal (d : Draft) : Event → Draft → EmitError → Prop where
  /-- A `}` in code where no block is open. -/
  | unbalanced (hdepth : d.depth = 0) :
      Refusal d .blockClose { d with text := d.text.push '}', header := d.header.closeBlock }
        (.unbalancedClose (d.text.push '}') ⟨d.size, 1⟩)
  /-- An end mark without a start mark. -/
  | stray (hpayload : d.reference? = none) :
      Refusal d .referenceEnd d (.strayReferenceEnd d.size)
  /-- A reference that names no type. -/
  | malformed {payload : String} {region : Region} {cause : NameError}
      (hpayload : d.reference? = some (payload, region))
      (hparse : TypeName.parse payload = .error cause) :
      Refusal d .referenceEnd { d with reference? := none } (.malformedReference payload cause)

variable {d d' : Draft} {event : Event} {e : EmitError}

theorem Refusal.blocks_eq (h : Refusal d event d' e) : d'.blocks = d.blocks := by
  cases h <;> rfl

theorem Refusal.shadows_eq (h : Refusal d event d' e) : d'.shadows = d.shadows := by
  cases h <;> rfl

theorem Refusal.scope_eq (h : Refusal d event d' e) : d'.scope = d.scope := by
  cases h <;> rfl

theorem refusal_of_take_eq_fail (h : d.take event = .fail d' e) : Refusal d event d' e := by
  have htaken := d.taken event
  generalize d.take event = o at htaken h
  cases htaken with
  | unbalanced hdepth =>
      obtain ⟨rfl, he⟩ := Outcome.mk.inj h
      rw [← Option.some.inj he]
      exact .unbalanced hdepth
  | strayEnd hpayload =>
      obtain ⟨rfl, he⟩ := Outcome.mk.inj h
      rw [← Option.some.inj he]
      exact .stray hpayload
  | malformed hpayload hparse =>
      obtain ⟨rfl, he⟩ := Outcome.mk.inj h
      rw [← Option.some.inj he]
      exact .malformed hpayload hparse
  | _ => exact absurd (congrArg Outcome.error? h) (by simp)

/-- On a draft that has not failed, a refusal is recorded with the length of the text it leaves. -/
theorem refusal_of_handle_eq_fail (hfailed : d.failedAt? = none) (h : d.handle event = .fail d' e) :
    ∃ left, Refusal d event left e ∧ d' = { left with failedAt? := some left.size } := by
  cases htake : (d.take event).error? with
  | none =>
      rw [handle_of_taken hfailed htake] at h
      rw [h] at htake
      exact absurd htake (by simp)
  | some cause =>
      rw [handle_of_refused hfailed htake] at h
      obtain ⟨rfl, he⟩ := Outcome.mk.inj h
      obtain rfl := Option.some.inj he
      exact ⟨_, refusal_of_take_eq_fail (congrArg (Outcome.mk _) htake), rfl⟩

end Draft

/-- Only a closing brace closes a block. -/
theorem Lexer.eq_of_classify_eq_blockClose {l : Lexer} {c : Char}
    (h : (l.classify c).1 = .blockClose) : c = '}' := by
  rcases l.classify_cases c with ⟨region, hevent⟩ | hevent | hevent | hevent
  · exact absurd (hevent.symm.trans h) (by simp)
  · exact absurd (hevent.symm.trans h) (by simp)
  · exact absurd (hevent.symm.trans h) (by simp)
  · rw [hevent] at h
    rcases l.state.read_cases c with ⟨hread, -⟩ | ⟨-, hc⟩ | ⟨region, hread⟩
    · exact absurd (hread.symm.trans h) (by simp)
    · exact hc
    · exact absurd (hread.symm.trans h) (by simp)

namespace CompilationUnit

variable {u v w : CompilationUnit} {offset : Nat}

/-- The unit fails where its draft does. -/
theorem handle_of_append_eq_fail {c : Char} {e : EmitError} (h : u.append c = .fail v e) :
    u.draft.handle (u.lexer.classify c).1 = .fail v.draft e := by
  obtain ⟨hstate, herror⟩ := Outcome.mk.inj h
  rw [← hstate]
  exact congrArg (Outcome.mk _) herror

/-! ## Frozen units -/

/-- After a failure a character only moves the lexer. -/
theorem append_of_failed (h : u.draft.failedAt? = some offset) (c : Char) :
    u.append c = .fail { u with lexer := (u.lexer.classify c).2 } (.poisoned offset) :=
  append_eq_fail (Draft.handle_of_failed h _)

/-- Of a stream that comes too late the first character is refused. -/
theorem appendList_of_failed (h : u.draft.failedAt? = some offset) {cs : List Char}
    (hne : cs ≠ []) : ∃ l, u.appendList cs = .fail { u with lexer := l } (.poisoned offset) := by
  cases cs with
  | nil => exact absurd rfl hne
  | cons c cs => exact ⟨_, by rw [appendList_cons, append_of_failed h, Outcome.andThen_fail]⟩

theorem draft_appendList_of_failed (h : u.draft.failedAt? = some offset) (cs : List Char) :
    (u.appendList cs).state.draft = u.draft := by
  by_cases hne : cs = []
  · rw [hne]
    rfl
  · obtain ⟨l, hfail⟩ := appendList_of_failed h hne
    rw [hfail]
    rfl

/-- An edit that has characters fails at the first of them. -/
theorem error?_edit_of_failed (h : u.draft.failedAt? = some offset) {e : Edit}
    (hne : e.stream ≠ []) : (u.edit e).error? = some (.emit (.poisoned offset)) := by
  obtain ⟨l, hfail⟩ := appendList_of_failed h hne
  refine u.error?_edit_of_stream ?_
  rw [hfail, Outcome.error?_fail]

/-- **A draft that has failed is frozen.**  Edits leave it as it is, but for the simple names that
spellings claim. -/
theorem editAll_of_failed (h : u.draft.failedAt? = some offset) (edits : List Edit) :
    (u.editAll edits).draft = { u.draft with scope := (u.editAll edits).scope } ∧
      ((∀ q, Edit.spell q ∉ edits) → (u.editAll edits).draft = u.draft) := by
  induction edits generalizing u with
  | nil => exact ⟨rfl, fun _ => rfl⟩
  | cons e edits ih =>
      show ((u.edit e).state.editAll edits).draft =
          { u.draft with scope := ((u.edit e).state.editAll edits).scope } ∧
        ((∀ q, Edit.spell q ∉ e :: edits) → ((u.edit e).state.editAll edits).draft = u.draft)
      rcases u.edit_cases e with ⟨q, rfl⟩ | hstate
      · refine ⟨(ih (u := (u.spell q).2) h).1, ?_⟩
        intro hnone
        exact absurd List.mem_cons_self (hnone q)
      · have hdraft : (u.edit e).state.draft = u.draft := by
          rw [hstate, draft_appendList_of_failed h]
        obtain ⟨hfrozen, hstays⟩ := ih (u := (u.edit e).state) (by rw [hdraft]; exact h)
        rw [hdraft] at hfrozen hstays
        exact ⟨hfrozen, fun hnone => hstays fun q hq => hnone q (List.mem_cons_of_mem _ hq)⟩

/-! ## Runs without a failure -/

/-- In a run that starts at `u`, with every character taken, the unit can be `v`. -/
inductive Unbroken (u : CompilationUnit) : CompilationUnit → Prop where
  | refl : Unbroken u u
  | append {v : CompilationUnit} (h : Unbroken u v) {c : Char}
      (htaken : (v.append c).error? = none) : Unbroken u (v.append c).state
  | spell {v : CompilationUnit} (h : Unbroken u v) (q : TypeName) : Unbroken u (v.spell q).2

/-- A character that is taken leaves no record of a failure. -/
theorem failedAt?_append_of_taken {c : Char} (h : (u.append c).error? = none)
    (hu : u.draft.failedAt? = none) : (u.append c).state.draft.failedAt? = none := by
  have htaken : (u.draft.take (u.lexer.classify c).1).error? = none := by
    rw [← Draft.error?_handle hu]
    exact h
  rw [state_append, Draft.handle_of_taken hu htaken, Draft.failedAt?_take]
  exact hu

theorem Unbroken.failedAt?_eq_none (h : Unbroken u v) (hu : u.draft.failedAt? = none) :
    v.draft.failedAt? = none := by
  induction h with
  | refl => exact hu
  | append h htaken ih => exact failedAt?_append_of_taken htaken ih
  | spell h q ih => exact ih

theorem Unbroken.exists_reaches (h : Unbroken u v) : ∃ history, Reaches u history v := by
  induction h with
  | refl => exact ⟨[], .refl⟩
  | append h htaken ih =>
      obtain ⟨history, hreaches⟩ := ih
      exact ⟨_, hreaches.append _⟩
  | spell h q ih =>
      obtain ⟨history, hreaches⟩ := ih
      exact ⟨_, hreaches.spell q⟩

/-- The runs without a failure are those that end with none on record. -/
theorem unbroken_iff (hu : u.draft.failedAt? = none) :
    Unbroken u v ↔ (∃ history, Reaches u history v) ∧ v.draft.failedAt? = none := by
  constructor
  · intro h
    exact ⟨h.exists_reaches, h.failedAt?_eq_none hu⟩
  · rintro ⟨⟨history, h⟩, hok⟩
    induction h with
    | refl => exact .refl
    | append h c ih =>
        obtain ⟨hbefore, htaken⟩ := error?_append_of_failedAt? hok
        exact (ih hbefore).append htaken
    | spell h q ih => exact (ih hok).spell q

/-! ## The first failure -/

/-- What a failure that left the unit as `w` has made of it once it has become `x`: nothing but
the scope has changed in the draft, and whatever is written is refused with the length that the
text had at the failure. -/
structure Frozen (w x : CompilationUnit) : Prop where
  draft : x.draft = { w.draft with scope := x.scope }
  grows : w.scope.Grows x.scope
  append : ∀ c, x.append c =
    .fail { x with lexer := (x.lexer.classify c).2 } (.poisoned w.text.utf8ByteSize)
  edit : ∀ e : Edit, e.stream ≠ [] →
    (x.edit e).error? = some (.emit (.poisoned w.text.utf8ByteSize))

theorem frozen_editAll (h : w.draft.failedAt? = some w.text.utf8ByteSize) (edits : List Edit) :
    Frozen w (w.editAll edits) := by
  obtain ⟨hdraft, -⟩ := editAll_of_failed h edits
  have hfailed : (w.editAll edits).draft.failedAt? = some w.text.utf8ByteSize := by
    rw [hdraft]
    exact h
  exact ⟨hdraft, grows_editAll w edits, append_of_failed hfailed,
    fun _ hne => error?_edit_of_failed hfailed hne⟩

variable {visible : Visibility} {target : TypeName} {companions : List TypeName}
  {features : Features}

/-- **The first failure is local and final.**  Of the character that fails first at most a brace
is left in the text, and the blocks, the scope and the shadows are as they were before.  From then
on the unit is frozen, whatever edits follow, and its scope with it unless a spelling is asked
for. -/
theorem Unbroken.first_failure (hstart : start visible target companions features = .ok u)
    (h : Unbroken u v) {c : Char} {e : EmitError} (hfail : v.append c = .fail w e) :
    ((c = '}' ∧ w.text = v.text.push '}' ∧
          e = .unbalancedClose w.text ⟨v.text.utf8ByteSize, 1⟩) ∨
        (w.text = v.text ∧ e = .strayReferenceEnd v.text.utf8ByteSize) ∨
        (w.text = v.text ∧ ∃ payload cause, e = .malformedReference payload cause)) ∧
      w.draft.blocks = v.draft.blocks ∧ w.draft.shadows = v.draft.shadows ∧ w.scope = v.scope ∧
      ∀ edits, Frozen w (w.editAll edits) ∧
        ((∀ q, Edit.spell q ∉ edits) → (w.editAll edits).draft = w.draft) := by
  have hok : v.draft.failedAt? = none := h.failedAt?_eq_none (atRest_of_start hstart).noFailure
  obtain ⟨left, hrefusal, hleft⟩ :=
    Draft.refusal_of_handle_eq_fail hok (handle_of_append_eq_fail hfail)
  have hfailed : w.draft.failedAt? = some w.text.utf8ByteSize := by
    rw [text, hleft]
    rfl
  refine ⟨?_, ?_, ?_, ?_, fun edits => ⟨frozen_editAll hfailed edits, ?_⟩⟩
  · have htext : w.text = left.text := by rw [text, hleft]
    generalize hevent : (v.lexer.classify c).1 = event at hrefusal
    cases hrefusal with
    | unbalanced hdepth =>
        refine .inl ⟨Lexer.eq_of_classify_eq_blockClose hevent, htext, ?_⟩
        rw [htext]
        rfl
    | stray hpayload => exact .inr (.inl ⟨htext, rfl⟩)
    | malformed hpayload hparse => exact .inr (.inr ⟨htext, _, _, rfl⟩)
  · rw [hleft]
    exact hrefusal.blocks_eq
  · rw [hleft]
    exact hrefusal.shadows_eq
  · rw [scope, hleft]
    exact hrefusal.scope_eq
  · exact (editAll_of_failed hfailed edits).2

/-- After a brace too many a type can still claim its simple name, but no character gets into the
text. -/
theorem Unbroken.first_failure_brace :
    ∃ u v w, start Visibility.nothing ⟨["com", "example"], ["Widget"]⟩ [] .empty = .ok u ∧
      Unbroken u v ∧ v.append '}' = .fail w (.unbalancedClose w.text ⟨62, 1⟩) ∧
      (w.editAll [.spell ⟨["java", "util"], ["List"]⟩, .text "\x7bx"]).text =
        preamble ⟨["com", "example"], ["Widget"]⟩ ++ "\x7b\x7d\x7d" ∧
      ((w.editAll [.spell ⟨["java", "util"], ["List"]⟩, .text "\x7bx"]).append 'y').error? =
        some (.poisoned 63) := by
  let target : TypeName := ⟨["com", "example"], ["Widget"]⟩
  let u := fresh target .empty (Scope.empty.claim target true)
  let v := ((u.append '{').state.append '}').state
  have hstart : start Visibility.nothing target [] .empty = .ok u :=
    start_nothing target .empty (by decide)
  have hunbroken : Unbroken u v :=
    .append (.append .refl (by decide +kernel)) (by decide +kernel)
  have hfail : v.append '}' =
      .fail (v.append '}').state (.unbalancedClose (v.append '}').state.text ⟨62, 1⟩) := by
    have herror : (v.append '}').error? =
        some (.unbalancedClose (v.append '}').state.text ⟨62, 1⟩) := by decide +kernel
    exact congrArg (Outcome.mk _) herror
  obtain ⟨-, -, -, -, hfrozen⟩ := hunbroken.first_failure hstart hfail
  obtain ⟨hlater, -⟩ := hfrozen [.spell ⟨["java", "util"], ["List"]⟩, .text "\x7bx"]
  have htext : (v.append '}').state.text = preamble target ++ "\x7b\x7d\x7d" := by decide +kernel
  refine ⟨u, v, _, hstart, hunbroken, hfail, ?_, ?_⟩
  · rw [← htext, text, hlater.draft, text]
  · rw [hlater.append, Outcome.error?_fail, htext]
    decide +kernel

end CompilationUnit
end JavaUnit
