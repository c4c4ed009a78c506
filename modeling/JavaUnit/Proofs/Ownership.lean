import JavaUnit.Proofs.Mentions
import JavaUnit.Proofs.Runs

/-!
# Who owns a simple name

A simple name gets its owner in one of two places: when a unit is started, or in a single step of
its run.  Here is what the scope of a unit looks like for that reason.

A fresh unit has the simple names of its target and companions reserved.  After them come the
types that are visible anyway, and each of those binds its name if it is the first to want it.
`binding?_of_start` puts this into one equation.

From then on the scope takes one step at a time (`Scope.Step`).  So it only grows along a run
(`Reaches.grows`), and every name stands for a type that has it (`Reaches.coherent`).
-/

namespace JavaUnit

namespace Scope

variable {s t : Scope} {p q : TypeName} {names : List TypeName} {simple : String}

/-! ## Reservations -/

/-- Reserving a type claims its simple name, makes the claim that the type has on it firmer, or
fails because the name stands for another. -/
theorem reserve_cases (s : Scope) (q : TypeName) :
    (s.binding? q.simpleName = none ∧ s.reserve q = .ok (s.claim q true)) ∨
      (s.Owns q ∧ s.reserve q = .ok (s.claim q true)) ∨
      ∃ b, s.binding? q.simpleName = some b ∧ b.owner ≠ q ∧
        s.reserve q = .error (.reservedConflict b.owner q) := by
  cases hb : s.binding? q.simpleName with
  | none => exact .inl ⟨rfl, by simp [reserve, hb]⟩
  | some b =>
      by_cases howner : b.owner = q
      · exact .inr (.inl ⟨⟨b, hb, howner⟩, by simp [reserve, hb, howner]⟩)
      · exact .inr (.inr ⟨b, rfl, howner, by simp [reserve, hb, howner]⟩)

/-- A reservation is a claim, and nobody else is the owner before it. -/
theorem reserve_eq_ok (h : s.reserve q = .ok t) :
    t = s.claim q true ∧ ∀ b, s.binding? q.simpleName = some b → b.owner = q := by
  rcases reserve_cases s q with ⟨hfree, hok⟩ | ⟨⟨b, hb, howner⟩, hok⟩ | ⟨b, -, -, herror⟩
  · rw [hok] at h
    refine ⟨(Except.ok.inj h).symm, ?_⟩
    intro c hc
    rw [hfree] at hc
    exact absurd hc (by simp)
  · rw [hok] at h
    refine ⟨(Except.ok.inj h).symm, ?_⟩
    intro c hc
    rw [hb] at hc
    rw [← Option.some.inj hc]
    exact howner
  · rw [herror] at h
    exact absurd h (by simp)

/-- A reservation may make an owner firmer but does not replace one. -/
theorem Owns.reserve (hp : s.Owns p) (h : s.reserve q = .ok t) : t.Owns p := by
  obtain ⟨rfl, howner⟩ := reserve_eq_ok h
  obtain ⟨b, hb, hbp⟩ := hp
  by_cases hname : q.simpleName = p.simpleName
  · have hqp : q = p := by
      rw [← hname] at hb
      rw [← howner b hb, hbp]
    rw [hqp]
    exact owns_claim s p true
  · refine ⟨b, ?_, hbp⟩
    rw [binding?_claim, if_neg hname]
    exact hb

theorem reserveAll_cons (h : (q :: names).foldlM Scope.reserve s = .ok t) :
    ∃ r, s.reserve q = .ok r ∧ names.foldlM Scope.reserve r = .ok t := by
  rw [List.foldlM_cons] at h
  cases hr : s.reserve q with
  | error e =>
      rw [hr] at h
      exact absurd h (by simp [bind, Except.bind])
  | ok r =>
      rw [hr] at h
      exact ⟨r, rfl, h⟩

theorem Owns.reserveAll (hp : s.Owns p) (h : names.foldlM Scope.reserve s = .ok t) : t.Owns p := by
  induction names generalizing s with
  | nil =>
      obtain rfl : s = t := Except.ok.inj h
      exact hp
  | cons q names ih =>
      obtain ⟨r, hr, hrest⟩ := reserveAll_cons h
      exact ih (hp.reserve hr) hrest

/-- **Names that are reserved in a row**: each stands for its type afterwards, and the other names
stand for what they stood for.  The induction is on the row.  A name that comes twice in it is
that of one type, since its owner is kept. -/
theorem binding?_reserveAll (h : names.foldlM Scope.reserve s = .ok t) (simple : String) :
    t.binding? simple =
      ((names.find? (·.simpleName == simple)).map (Binding.mk · true)).or
        (s.binding? simple) := by
  induction names generalizing s with
  | nil =>
      obtain rfl : s = t := Except.ok.inj h
      rfl
  | cons q names ih =>
      obtain ⟨r, hr, hrest⟩ := reserveAll_cons h
      obtain ⟨rfl, -⟩ := reserve_eq_ok hr
      rw [ih hrest, binding?_claim]
      by_cases hname : q.simpleName = simple
      · subst hname
        have howns : t.Owns q := (owns_claim s q true).reserveAll hrest
        cases hlater : names.find? (·.simpleName == q.simpleName) with
        | none => simp
        | some p =>
            have hp : p.simpleName = q.simpleName := by
              simpa using List.find?_some hlater
            have hbinding : t.binding? p.simpleName = some ⟨p, true⟩ := by
              rw [hp, ih hrest, hlater]
              rfl
            have hpq : p = q := Owns.eq ⟨_, hbinding, rfl⟩ howns hp
            simp [hpq]
      · simp [hname]

/-! ## Visible types -/

theorem binding?_declare (s : Scope) (q : TypeName) (simple : String) :
    (s.declare q).2.binding? simple =
      (s.binding? simple).or (if q.simpleName = simple then some ⟨q, false⟩ else none) := by
  rcases declare_cases s q with ⟨hfree, h⟩ | ⟨⟨b, hb, -⟩, h⟩ | ⟨b, hb, -, h⟩
  · rw [h, binding?_claim]
    split
    · rename_i hname
      rw [← hname, hfree]
      rfl
    · simp
  · rw [h]
    split
    · rename_i hname
      rw [← hname, hb]
      rfl
    · simp
  · rw [h]
    split
    · rename_i hname
      rw [← hname, hb]
      rfl
    · simp

/-- Names that are declared in a row: a name that is free goes to the first type that has it. -/
theorem binding?_declareAll (s : Scope) (names : List TypeName) (simple : String) :
    (s.declareAll names).binding? simple =
      (s.binding? simple).or
        ((names.find? (·.simpleName == simple)).map (Binding.mk · false)) := by
  induction names generalizing s with
  | nil => simp [declareAll]
  | cons q names ih =>
      have hstep : s.declareAll (q :: names) = (s.declare q).2.declareAll names := rfl
      rw [hstep, ih, binding?_declare, Option.or_assoc]
      by_cases hname : q.simpleName = simple
      · simp [hname]
      · simp [hname]

/-! ## Names and their owners -/

/-- Every simple name stands for a type of that name. -/
def Coherent (s : Scope) : Prop :=
  ∀ simple b, s.binding? simple = some b → b.owner.simpleName = simple

/-- A type claims its own simple name. -/
theorem Coherent.claim (hs : s.Coherent) (q : TypeName) (reserved : Bool) :
    (s.claim q reserved).Coherent := by
  intro simple b hb
  rw [binding?_claim] at hb
  split at hb
  · rename_i hname
    rw [← Option.some.inj hb]
    exact hname
  · exact hs simple b hb

theorem Step.coherent (h : s.Step t) (hs : s.Coherent) : t.Coherent := by
  cases h with
  | still => exact hs
  | claimed q hfree => exact hs.claim q false

end Scope

namespace CompilationUnit

variable {visible : Visibility} {target : TypeName} {companions : List TypeName}
  {features : Features} {t u v : CompilationUnit} {history : List BlockStep}

/-! ## At the start -/

/-- A unit starts over the scope in which its reservations were made, with the visible types added
to it. -/
theorem startScope_eq_ok_iff {scope : Scope} :
    startScope visible target companions = .ok scope ↔
      ∃ reserved, (target :: companions).foldlM Scope.reserve Scope.empty = .ok reserved ∧
        reserved.see visible target = scope := by
  unfold startScope
  cases (target :: companions).foldlM Scope.reserve Scope.empty with
  | error e => simp [bind, Except.bind]
  | ok reserved => simp [bind, Except.bind, pure, Except.pure]

theorem binding?_of_startScope {scope : Scope}
    (h : startScope visible target companions = .ok scope) (simple : String) :
    scope.binding? simple =
      (((target :: companions).find? (·.simpleName == simple)).map (Binding.mk · true)).or
        (((visible target).find? (·.simpleName == simple)).map (Binding.mk · false)) := by
  obtain ⟨reserved, hreserved, rfl⟩ := startScope_eq_ok_iff.1 h
  rw [Scope.see, Scope.binding?_declareAll, Scope.binding?_reserveAll hreserved,
    Scope.binding?_empty, Option.or_none]

/-- **What a simple name stands for in a fresh unit**: for the target or companion that has it,
else for the first visible type that does. -/
theorem binding?_of_start (h : start visible target companions features = .ok u)
    (simple : String) :
    u.scope.binding? simple =
      (((target :: companions).find? (·.simpleName == simple)).map (Binding.mk · true)).or
        (((visible target).find? (·.simpleName == simple)).map (Binding.mk · false)) := by
  obtain ⟨-, scope, hscope, rfl⟩ := start_eq_ok_iff.1 h
  exact binding?_of_startScope hscope simple

theorem coherent_of_start (h : start visible target companions features = .ok u) :
    u.scope.Coherent := by
  intro simple b hb
  rw [binding?_of_start h, Option.or_eq_some_iff] at hb
  rcases hb with hreserved | ⟨-, hvisible⟩
  · obtain ⟨q, hq, rfl⟩ := Option.map_eq_some_iff.1 hreserved
    simpa using List.find?_some hq
  · obtain ⟨q, hq, rfl⟩ := Option.map_eq_some_iff.1 hvisible
    simpa using List.find?_some hq

/-! ## In a run -/

/-- The scope only grows along a run. -/
theorem Reaches.grows (h : Reaches u history v) : u.scope.Grows v.scope :=
  h.inv (P := fun v => u.scope.Grows v.scope) (fun v c hv => hv.trans (v.grows_append c))
    (fun v q hv => hv.trans (v.grows_spell q)) (Scope.Grows.refl _)

theorem Reaches.coherent (h : Reaches u history v) (hu : u.scope.Coherent) : v.scope.Coherent :=
  h.inv (P := fun v => v.scope.Coherent) (fun v c hv => (v.step_append c).coherent hv)
    (fun v q hv => (v.step_spell q).coherent hv) hu

theorem Reaches.target_eq (h : Reaches u history v) : v.target = u.target :=
  h.inv (P := fun v => v.target = u.target) (fun _ _ hv => hv) (fun _ _ hv => hv) rfl

/-! ## Mentions of a run -/

variable {m : Mention}

theorem Reaches.of_mem_mentionsIn (h : Reaches t history u) {cs : List Char}
    (hm : m ∈ u.mentionsIn cs) :
    ∃ past next, Reaches t past m.before ∧ Reaches t next m.after := by
  induction cs generalizing history u with
  | nil => exact absurd hm (by simp [mentionsIn])
  | cons c cs ih =>
      rcases mem_mentionsIn_cons.1 hm with hfirst | ⟨-, hrest⟩
      · obtain ⟨hbefore, hafter, -⟩ := append_of_mention? hfirst
        rw [hbefore, hafter]
        exact ⟨_, _, h, h.append c⟩
      · exact ih (h.append c) hrest

/-- What is mentioned in a run is mentioned at a point of the run. -/
theorem Reaches.of_mem_mentions (h : Reaches t history u) {edits : List Edit}
    (hm : m ∈ u.mentions edits) :
    ∃ past next, Reaches t past m.before ∧ Reaches t next m.after := by
  induction edits generalizing history u with
  | nil => exact absurd hm (by simp [mentions])
  | cons e edits ih =>
      rw [mentions, List.mem_append] at hm
      rcases hm with hfirst | hrest
      · rcases u.mentionsOf_cases e with ⟨q, rfl⟩ | ⟨hmentions, -⟩
        · rw [mentionsOf_spell, List.mem_singleton] at hfirst
          rw [hfirst]
          exact ⟨_, _, h, h.spell q⟩
        · rw [hmentions] at hfirst
          exact h.of_mem_mentionsIn hfirst
      · obtain ⟨later, hlater⟩ := h.edit e
        exact ih hlater hrest

end CompilationUnit
end JavaUnit
