import JavaUnit.Proofs.Effects
import JavaUnit.Proofs.NameText
import JavaUnit.Unit.Basic

/-!
# What a spelling does to the scope

A reference is spelled by its simple name or in full.  If it is spelled by its simple name,
that name stands for the type from then on; if it is spelled in full, the scope stays as it is
(`Draft.spelling_cases`).

The scope is only ever added to, one free name at a time: `Scope.Step` says all that a step of a
run can do to it.  Every event is such a step.  `Draft.Claims` says which events declare a type, and
the names that they declare are valid (`Draft.scope_take_cases`).  What else is known of scopes in a
run comes from there.
`Scope.Grows s t` says that `t` has what `s` has, so what a name stands for once, it stands for in
every later scope (`Scope.Owns.mono`).
-/

namespace JavaUnit

namespace Scope

/-! ## Names once claimed -/

/-- What a simple name stands for in `s`, it stands for in `t`. -/
def Grows (s t : Scope) : Prop :=
  ∀ simple b, s.binding? simple = some b → t.binding? simple = some b

theorem Grows.refl (s : Scope) : s.Grows s := fun _ _ h => h

theorem Grows.trans {r s t : Scope} (hrs : r.Grows s) (hst : s.Grows t) : r.Grows t :=
  fun simple b h => hst simple b (hrs simple b h)

/-- The simple name of `q` stands for `q`. -/
def Owns (s : Scope) (q : TypeName) : Prop :=
  ∃ b, s.binding? q.simpleName = some b ∧ b.owner = q

theorem Owns.mono {s t : Scope} {q : TypeName} (h : s.Owns q) (hst : s.Grows t) : t.Owns q := by
  obtain ⟨b, hb, howner⟩ := h
  exact ⟨b, hst _ _ hb, howner⟩

/-- A simple name stands for one type at most. -/
theorem Owns.eq {s : Scope} {p q : TypeName} (hp : s.Owns p) (hq : s.Owns q)
    (hname : p.simpleName = q.simpleName) : p = q := by
  obtain ⟨b, hb, rfl⟩ := hp
  obtain ⟨c, hc, rfl⟩ := hq
  rw [hname, hc] at hb
  rw [Option.some.inj hb]

variable {s : Scope} {q : TypeName}

/-- Claiming a free name takes nothing from anybody. -/
theorem grows_claim (h : s.binding? q.simpleName = none) (reserved : Bool) :
    s.Grows (s.claim q reserved) := by
  intro simple b hb
  have hne : q.simpleName ≠ simple := by
    rintro rfl
    rw [h] at hb
    exact absurd hb (by simp)
  rw [binding?_claim, if_neg hne]
  exact hb

theorem owns_claim (s : Scope) (q : TypeName) (reserved : Bool) : (s.claim q reserved).Owns q := by
  refine ⟨⟨q, reserved⟩, ?_, rfl⟩
  rw [binding?_claim, if_pos rfl]

/-- Declaring a type claims its simple name, finds it claimed for the type, or finds it
claimed for another. -/
theorem declare_cases (s : Scope) (q : TypeName) :
    (s.binding? q.simpleName = none ∧ s.declare q = (true, s.claim q false)) ∨
      (s.Owns q ∧ s.declare q = (true, s)) ∨
      ∃ b, s.binding? q.simpleName = some b ∧ b.owner ≠ q ∧ s.declare q = (false, s) := by
  cases hb : s.binding? q.simpleName with
  | none => exact .inl ⟨rfl, by simp [declare, standing, hb]⟩
  | some b =>
      by_cases howner : b.owner = q
      · exact .inr (.inl ⟨⟨b, hb, howner⟩, by simp [declare, standing, hb, howner]⟩)
      · exact .inr (.inr ⟨b, rfl, howner, by simp [declare, standing, hb, howner]⟩)

/-- All that one step of a run can do to a scope: nothing, or the claim of one simple name that
is free. -/
inductive Step (s : Scope) : Scope → Prop where
  | still : Step s s
  | claimed (q : TypeName) (hfree : s.binding? q.simpleName = none) : Step s (s.claim q false)

theorem Step.grows {s t : Scope} (h : s.Step t) : s.Grows t := by
  cases h with
  | still => exact Grows.refl s
  | claimed q hfree => exact grows_claim hfree false

theorem step_declare (s : Scope) (q : TypeName) : s.Step (s.declare q).2 := by
  rcases declare_cases s q with ⟨hfree, h⟩ | ⟨-, h⟩ | ⟨b, -, -, h⟩
  · rw [h]
    exact .claimed q hfree
  · rw [h]
    exact .still
  · rw [h]
    exact .still

/-- A type is spelled by its simple name if the name stands for it afterwards, and in full if
the name stands for another. -/
theorem spell_cases (s : Scope) (q : TypeName) :
    ((s.spell q).1 = q.simpleName ∧ (s.spell q).2.Owns q) ∨
      ∃ b, s.binding? q.simpleName = some b ∧ b.owner ≠ q ∧ s.spell q = (q.dotted, s) := by
  rcases declare_cases s q with ⟨-, h⟩ | ⟨howns, h⟩ | ⟨b, hb, howner, h⟩
  · exact .inl (by simpa [spell, h] using owns_claim s q false)
  · exact .inl (by simpa [spell, h] using howns)
  · exact .inr ⟨b, hb, howner, by simp [spell, h]⟩

/-- The owner of a simple name is spelled by it, and nothing is claimed. -/
theorem spell_of_owns (h : s.Owns q) : s.spell q = (q.simpleName, s) := by
  obtain ⟨b, hb, howner⟩ := h
  rcases declare_cases s q with ⟨hfree, -⟩ | ⟨-, hdeclare⟩ | ⟨c, hc, hother, -⟩
  · rw [hfree] at hb
    exact absurd hb (by simp)
  · simp [spell, hdeclare]
  · rw [hc] at hb
    exact absurd (Option.some.inj hb ▸ howner) hother

/-- Spelling a type declares it. -/
theorem spell_snd (s : Scope) (q : TypeName) : (s.spell q).2 = (s.declare q).2 := by
  rcases h : s.declare q with ⟨_ | _, t⟩ <;> simp [spell, h]

theorem step_spell (s : Scope) (q : TypeName) : s.Step (s.spell q).2 := by
  rw [spell_snd]
  exact step_declare s q

end Scope

namespace Draft

/-! ## Names in a draft -/

/-- A type that no declared type shadows is spelled as the scope has it; one that is shadowed
is spelled in full. -/
theorem spelling_cases (d : Draft) (q : TypeName) :
    (d.isShadowed q = false ∧ (d.spelling q).1 = q.simpleName ∧ (d.spelling q).2.Owns q) ∨
      d.spelling q = (q.dotted, d.scope) := by
  unfold spelling
  cases hshadow : d.isShadowed q with
  | true => exact .inr rfl
  | false =>
      rcases d.scope.spell_cases q with ⟨hspelling, howns⟩ | ⟨b, -, -, h⟩
      · exact .inl ⟨rfl, hspelling, howns⟩
      · exact .inr h

/-- A spelling leaves the scope alone or declares the type in it. -/
theorem scope_spelling_cases (d : Draft) (q : TypeName) :
    (d.spelling q).2 = d.scope ∨ (d.spelling q).2 = (d.scope.declare q).2 := by
  unfold spelling
  split
  · exact .inl rfl
  · exact .inr (d.scope.spell_snd q)

theorem step_spelling (d : Draft) (q : TypeName) : d.scope.Step (d.spelling q).2 := by
  rcases d.scope_spelling_cases q with h | h
  · rw [h]
    exact .still
  · rw [h]
    exact d.scope.step_declare q

theorem grows_spelling (d : Draft) (q : TypeName) : d.scope.Grows (d.spelling q).2 :=
  (d.step_spelling q).grows

/-- A type whose simple name stands for another type is spelled in full. -/
theorem spelling_of_owns {d : Draft} {p q : TypeName} (hp : d.scope.Owns p) (hne : q ≠ p)
    (hname : q.simpleName = p.simpleName) : (d.spelling q).1 = q.dotted := by
  rcases d.spelling_cases q with ⟨-, -, howns⟩ | h
  · exact absurd (howns.eq (hp.mono (d.grows_spelling q)) hname) hne
  · rw [h]

/-- A type is shadowed by the others of its simple name among the visible declared types. -/
theorem isShadowed_iff {d : Draft} {q : TypeName} :
    d.isShadowed q = true ↔
      ∃ shadow ∈ d.shadows, shadow.type ≠ q ∧ shadow.type.simpleName = q.simpleName := by
  simp only [isShadowed, List.any_eq_true, Bool.and_eq_true, beq_iff_eq, bne_iff_ne, and_comm]

/-- A type that is not shadowed has every visible declared type of its simple name to itself. -/
theorem eq_of_isShadowed_eq_false {d : Draft} {q : TypeName} (h : d.isShadowed q = false)
    {shadow : Shadow} (hmem : shadow ∈ d.shadows)
    (hname : shadow.type.simpleName = q.simpleName) : shadow.type = q := by
  by_cases heq : shadow.type = q
  · exact heq
  · rw [isShadowed_iff.2 ⟨shadow, hmem, heq, hname⟩] at h
    exact absurd h (by decide)

/-- A type that is declared has a valid name, because its name is built from segments. -/
theorem valid_of_declared {d : Draft} {simple : String} {q : TypeName}
    (h : d.declared simple = .ok q) : q.Valid := by
  unfold declared at h
  split at h
  · exact (TypeName.ofSegments_eq_ok_iff.1 h).2
  · exact (TypeName.ofSegments_eq_ok_iff.1 h).2

/-! ## Events that ask for a simple name -/

/-- The events that ask for the simple name of a type: the end of a reference to it, unless it is
shadowed, and the `{` of its body, if the body stands in no block but type bodies. -/
inductive Claims (d : Draft) : Event → TypeName → Prop where
  | reference {payload : String} {region : Region} {q : TypeName}
      (hpayload : d.reference? = some (payload, region)) (hparse : TypeName.parse payload = .ok q)
      (hclear : d.isShadowed q = false) : Claims d .referenceEnd q
  | member {simple : String} {q : TypeName} (hname : d.header.openBlock.1 = some simple)
      (hq : d.declared simple = .ok q) (hmember : d.blocks.all (·.kind.isType) = true) :
      Claims d .blockOpen q

theorem scope_take_of_claims {d : Draft} {event : Event} {q : TypeName}
    (h : d.Claims event q) : (d.take event).state.scope = (d.scope.declare q).2 := by
  cases h with
  | reference hpayload hparse hclear =>
      rw [show d.take .referenceEnd = _ from endReference_of_parse hpayload hparse]
      show (if d.isShadowed q = true then (q.dotted, d.scope) else d.scope.spell q).2 = _
      rw [hclear, if_neg (by decide), Scope.spell_snd]
  | member hname hq hmember =>
      rw [show d.take .blockOpen = .ok _ from congrArg Outcome.ok (openBlock_of_declared hname hq)]
      exact if_pos hmember

/-- Every other event leaves the scope alone, also one that opens the body of a type in a block of
code or ends a reference to a type that is shadowed. -/
theorem scope_take_of_not_claims {d : Draft} {event : Event} (h : ∀ q, ¬d.Claims event q) :
    (d.take event).state.scope = d.scope := by
  have htaken := d.taken event
  generalize d.take event = o at htaken ⊢
  cases htaken with
  | openedType hname hq => exact if_neg fun hmember => h _ (.member hname hq hmember)
  | replaced hpayload hparse =>
      refine congrArg Prod.snd (if_pos ?_)
      exact Bool.of_not_eq_false fun hclear => h _ (.reference hpayload hparse hclear)
  | _ => rfl

/-- Only a valid name is ever declared: it has been read or is built from segments. -/
theorem Claims.valid {d : Draft} {event : Event} {q : TypeName} (h : d.Claims event q) :
    q.Valid := by
  cases h with
  | reference hpayload hparse hclear => exact TypeName.valid_of_parse hparse
  | member hname hq hmember => exact valid_of_declared hq

/-- **Whatever happens to a draft, its scope stays or gets one valid name declared.** -/
theorem scope_take_cases (d : Draft) (event : Event) :
    (d.take event).state.scope = d.scope ∨
      ∃ q : TypeName, q.Valid ∧ (d.take event).state.scope = (d.scope.declare q).2 := by
  by_cases hclaims : ∃ q, d.Claims event q
  · obtain ⟨q, hq⟩ := hclaims
    exact .inr ⟨q, hq.valid, scope_take_of_claims hq⟩
  · exact .inl (scope_take_of_not_claims (not_exists.1 hclaims))

theorem scope_handle_cases (d : Draft) (event : Event) :
    (d.handle event).state.scope = d.scope ∨
      ∃ q : TypeName, q.Valid ∧ (d.handle event).state.scope = (d.scope.declare q).2 := by
  cases hfailed : d.failedAt? with
  | some offset =>
      rw [handle_of_failed hfailed]
      exact .inl rfl
  | none =>
      obtain ⟨failure, hstate⟩ := state_handle hfailed event
      rw [hstate]
      exact scope_take_cases d event

/-- The scope of a draft takes a single step, whatever happens. -/
theorem step_handle (d : Draft) (event : Event) :
    d.scope.Step (d.handle event).state.scope := by
  rcases scope_handle_cases d event with h | ⟨q, -, h⟩
  · rw [h]
    exact .still
  · rw [h]
    exact d.scope.step_declare q

end Draft

namespace CompilationUnit

/-! ## Names in a unit -/

/-- A character leaves the scope of a unit alone or has a valid name declared. -/
theorem scope_append_cases (u : CompilationUnit) (c : Char) :
    (u.append c).state.scope = u.scope ∨
      ∃ q : TypeName, q.Valid ∧ (u.append c).state.scope = (u.scope.declare q).2 :=
  u.draft.scope_handle_cases _

/-- A spelling that is asked for leaves the scope of a unit alone or has the type declared. -/
theorem scope_spell_cases (u : CompilationUnit) (q : TypeName) :
    (u.spell q).2.scope = u.scope ∨ (u.spell q).2.scope = (u.scope.declare q).2 :=
  u.draft.scope_spelling_cases q

theorem step_spell (u : CompilationUnit) (q : TypeName) : u.scope.Step (u.spell q).2.scope :=
  u.draft.step_spelling q

theorem step_append (u : CompilationUnit) (c : Char) : u.scope.Step (u.append c).state.scope :=
  u.draft.step_handle _

theorem grows_spell (u : CompilationUnit) (q : TypeName) : u.scope.Grows (u.spell q).2.scope :=
  (u.step_spell q).grows

theorem grows_append (u : CompilationUnit) (c : Char) : u.scope.Grows (u.append c).state.scope :=
  (u.step_append c).grows

theorem grows_appendList (u : CompilationUnit) (cs : List Char) :
    u.scope.Grows (u.appendList cs).state.scope := by
  have hstep (v : CompilationUnit) (c : Char) (h : u.scope.Grows v.scope) :
      u.scope.Grows (v.append c).state.scope := h.trans (v.grows_append c)
  exact Outcome.each_invariant hstep (Scope.Grows.refl _) cs

end CompilationUnit
end JavaUnit
