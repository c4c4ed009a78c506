import JavaUnit.Proofs.Ownership
import Mathlib.Data.List.Induction

/-!
# Which units can be started

Two things keep a unit from being started: its target is in the default package, or two of the
names that are to be reserved, those of the target and of the companions, are different types with
one simple name.

Reserving goes through the names in their order and stops at the first that an earlier one is in
the way of.  `Compatible` says that there is no such name, `FirstConflict` which one it is and what
is in its way, and one of the two is always the case (`exists_firstConflict`).  The row of
reservations succeeds in the one (`Compatible.reserveAll`) and fails in the other with an error that
names the two types (`FirstConflict.reserveAll`).

A list of names is compatible or not whatever its order, and each of its names is reserved in the
end if it is.  So the order of the companions does not matter, nor does it matter how often one of
them is given.
-/

namespace JavaUnit

/-- No two types among the names share a simple name. -/
def Compatible (names : List TypeName) : Prop :=
  ∀ p ∈ names, ∀ q ∈ names, p.simpleName = q.simpleName → p = q

instance (names : List TypeName) : Decidable (Compatible names) :=
  inferInstanceAs (Decidable
    (∀ p ∈ names, ∀ q ∈ names, p.simpleName = q.simpleName → p = q))

/-- Up to `requested` the names are compatible, and among those before it is `reserved`, another
type with the simple name of `requested`. -/
def FirstConflict (names : List TypeName) (reserved requested : TypeName) : Prop :=
  ∃ before rest, names = before ++ requested :: rest ∧ Compatible before ∧ reserved ∈ before ∧
    reserved.simpleName = requested.simpleName ∧ reserved ≠ requested

variable {names names' : List TypeName} {p q : TypeName} {simple : String}

/-! ## Names that go together -/

theorem compatible_nil : Compatible [] := fun _ hp => absurd hp List.not_mem_nil

theorem Compatible.subset (h : Compatible names') (hsub : names ⊆ names') : Compatible names :=
  fun p hp q hq => h p (hsub hp) q (hsub hq)

/-- One more name is compatible with the others if it is the only type of its simple name. -/
theorem Compatible.concat (h : Compatible names)
    (hlast : ∀ p ∈ names, p.simpleName = q.simpleName → p = q) : Compatible (names ++ [q]) := by
  intro p hp r hr hname
  rw [List.mem_append, List.mem_singleton] at hp hr
  rcases hp with hp | rfl
  · rcases hr with hr | rfl
    · exact h p hp r hr hname
    · exact hlast p hp hname
  · rcases hr with hr | rfl
    · exact (hlast r hr hname.symm).symm
    · rfl

theorem not_compatible_iff :
    ¬Compatible names ↔
      ∃ p ∈ names, ∃ q ∈ names, p.simpleName = q.simpleName ∧ p ≠ q := by
  simp only [Compatible, not_forall, exists_prop]

/-- Of compatible names the first with a simple name is the only one. -/
theorem Compatible.find?_eq_some_iff (h : Compatible names) :
    names.find? (·.simpleName == simple) = some q ↔ q ∈ names ∧ q.simpleName = simple := by
  constructor
  · intro hfind
    exact ⟨List.mem_of_find?_eq_some hfind, by simpa using List.find?_some hfind⟩
  · rintro ⟨hmem, hname⟩
    cases hfind : names.find? (·.simpleName == simple) with
    | none => exact absurd (by simpa using hname) (List.find?_eq_none.1 hfind q hmem)
    | some p =>
        have hp : p.simpleName = simple := by simpa using List.find?_some hfind
        rw [h p (List.mem_of_find?_eq_some hfind) q hmem (hp.trans hname.symm)]

/-- Names that are not compatible have a first one among them that conflicts.  The induction takes
the last name off. -/
theorem exists_firstConflict (h : ¬Compatible names) : ∃ p q, FirstConflict names p q := by
  induction names using List.reverseRecOn with
  | nil => exact absurd compatible_nil h
  | append_singleton names last ih =>
      by_cases hbefore : Compatible names
      · by_contra hnone
        refine h (hbefore.concat fun p hp hname => ?_)
        by_contra hne
        exact hnone ⟨p, last, names, [], rfl, hbefore, hp, hname, hne⟩
      · obtain ⟨p, q, before, rest, rfl, hfirst⟩ := ih hbefore
        exact ⟨p, q, before, rest ++ [last], by simp, hfirst⟩

theorem FirstConflict.not_compatible (h : FirstConflict names p q) : ¬Compatible names := by
  obtain ⟨before, rest, rfl, -, hp, hname, hne⟩ := h
  intro hcompatible
  exact hne (hcompatible p (List.mem_append_left _ hp) q
    (List.mem_append_right _ List.mem_cons_self) hname)

/-! ## Reserving a row of names -/

theorem reserveAll_append {s t : Scope} (h : names.foldlM Scope.reserve s = .ok t)
    (more : List TypeName) :
    (names ++ more).foldlM Scope.reserve s = more.foldlM Scope.reserve t := by
  rw [List.foldlM_append, h]
  rfl

/-- Compatible names can be reserved in a row. -/
theorem Compatible.reserveAll (h : Compatible names) :
    ∃ t, names.foldlM Scope.reserve Scope.empty = .ok t := by
  induction names using List.reverseRecOn with
  | nil => exact ⟨Scope.empty, rfl⟩
  | append_singleton names last ih =>
      have hbefore := h.subset (List.subset_append_left names [last])
      obtain ⟨t, ht⟩ := ih hbefore
      rw [reserveAll_append ht, List.foldlM_cons]
      rcases Scope.reserve_cases t last with ⟨-, hok⟩ | ⟨-, hok⟩ | ⟨b, hb, hne, -⟩
      · exact ⟨_, by rw [hok]; rfl⟩
      · exact ⟨_, by rw [hok]; rfl⟩
      · -- what stands in the way was reserved before, so it is no other type
        rw [Scope.binding?_reserveAll ht, Scope.binding?_empty, Option.or_none] at hb
        obtain ⟨p, hfind, rfl⟩ := Option.map_eq_some_iff.1 hb
        obtain ⟨hp, hname⟩ := hbefore.find?_eq_some_iff.1 hfind
        exact absurd (h p (List.mem_append_left _ hp) last
          (List.mem_append_right _ List.mem_cons_self) hname) hne

/-- Reserving stops at the first conflict and reports it. -/
theorem FirstConflict.reserveAll (h : FirstConflict names p q) :
    names.foldlM Scope.reserve Scope.empty = .error (.reservedConflict p q) := by
  obtain ⟨before, rest, rfl, hbefore, hp, hname, hne⟩ := h
  obtain ⟨t, ht⟩ := hbefore.reserveAll
  have hbinding : t.binding? q.simpleName = some ⟨p, true⟩ := by
    rw [Scope.binding?_reserveAll ht, hbefore.find?_eq_some_iff.2 ⟨hp, hname⟩]
    rfl
  have howns : t.Owns p := ⟨_, by rw [hname]; exact hbinding, rfl⟩
  rw [reserveAll_append ht, List.foldlM_cons]
  rcases Scope.reserve_cases t q with ⟨hfree, -⟩ | ⟨hq, -⟩ | ⟨b, hb, -, herror⟩
  · rw [hbinding] at hfree
    exact absurd hfree (by simp)
  · exact absurd (howns.eq hq hname) hne
  · rw [hbinding] at hb
    rw [herror, ← Option.some.inj hb]
    rfl

theorem exists_reserveAll_iff :
    (∃ t, names.foldlM Scope.reserve Scope.empty = .ok t) ↔ Compatible names := by
  refine ⟨?_, Compatible.reserveAll⟩
  rintro ⟨t, ht⟩
  by_contra h
  obtain ⟨p, q, hfirst⟩ := exists_firstConflict h
  rw [hfirst.reserveAll] at ht
  exact absurd ht (by simp)

theorem reserveAll_eq_error_iff {e : EmitError} :
    names.foldlM Scope.reserve Scope.empty = .error e ↔
      ∃ p q, FirstConflict names p q ∧ e = .reservedConflict p q := by
  constructor
  · intro herror
    have hconflict : ¬Compatible names := by
      intro h
      obtain ⟨t, ht⟩ := h.reserveAll
      rw [ht] at herror
      exact absurd herror (by simp)
    obtain ⟨p, q, hfirst⟩ := exists_firstConflict hconflict
    rw [hfirst.reserveAll] at herror
    exact ⟨p, q, hfirst, (Except.error.inj herror).symm⟩
  · rintro ⟨p, q, hfirst, rfl⟩
    exact hfirst.reserveAll

namespace CompilationUnit

variable {visible : Visibility} {target : TypeName} {companions companions' : List TypeName}
  {features : Features}

/-! ## Starting a unit -/

theorem exists_startScope_iff :
    (∃ scope, startScope visible target companions = .ok scope) ↔
      Compatible (target :: companions) := by
  rw [← exists_reserveAll_iff]
  constructor
  · rintro ⟨scope, h⟩
    obtain ⟨reserved, hreserved, -⟩ := startScope_eq_ok_iff.1 h
    exact ⟨reserved, hreserved⟩
  · rintro ⟨reserved, hreserved⟩
    exact ⟨_, startScope_eq_ok_iff.2 ⟨reserved, hreserved, rfl⟩⟩

theorem startScope_eq_error_iff {e : EmitError} :
    startScope visible target companions = .error e ↔
      ∃ p q, FirstConflict (target :: companions) p q ∧ e = .reservedConflict p q := by
  rw [← reserveAll_eq_error_iff]
  unfold startScope
  cases (target :: companions).foldlM Scope.reserve Scope.empty with
  | error e' => simp [bind, Except.bind]
  | ok reserved => simp [bind, Except.bind, pure, Except.pure]

/-- What a scope holds at the start: the target and the companions as reserved, and of the other
simple names those that a visible type has, each bound to the first type that has it. -/
theorem binding?_of_startScope_iff {scope : Scope} {b : Binding}
    (h : startScope visible target companions = .ok scope) :
    scope.binding? simple = some b ↔
      (b.reserved = true ∧ b.owner ∈ target :: companions ∧ b.owner.simpleName = simple) ∨
        (b.reserved = false ∧ (∀ p ∈ target :: companions, p.simpleName ≠ simple) ∧
          (visible target).find? (·.simpleName == simple) = some b.owner) := by
  have hcompatible : Compatible (target :: companions) := exists_startScope_iff.1 ⟨scope, h⟩
  obtain ⟨owner, reserved⟩ := b
  rw [binding?_of_startScope h, Option.or_eq_some_iff, Option.map_eq_none_iff,
    List.find?_eq_none]
  simp only [Option.map_eq_some_iff, Binding.mk.injEq, hcompatible.find?_eq_some_iff, beq_iff_eq]
  refine or_congr ?_ ?_
  · constructor
    · rintro ⟨q, hq, rfl, rfl⟩
      exact ⟨rfl, hq⟩
    · rintro ⟨rfl, hq⟩
      exact ⟨owner, hq, rfl, rfl⟩
  · constructor
    · rintro ⟨hnone, q, hq, rfl, rfl⟩
      exact ⟨rfl, hnone, hq⟩
    · rintro ⟨rfl, hnone, hq⟩
      exact ⟨hnone, owner, hq, rfl, rfl⟩

/-- Companions are a set: their order does not matter, nor does repeating them. -/
theorem startScope_eq_ok_of_mem_iff {scope : Scope}
    (hmem : ∀ q, q ∈ companions' ↔ q ∈ companions)
    (h : startScope visible target companions = .ok scope) :
    startScope visible target companions' = .ok scope := by
  have hnames (q : TypeName) : q ∈ target :: companions' ↔ q ∈ target :: companions := by
    rw [List.mem_cons, List.mem_cons, hmem]
  have hcompatible : Compatible (target :: companions') :=
    (exists_startScope_iff.1 ⟨scope, h⟩).subset fun q hq => (hnames q).1 hq
  obtain ⟨scope', h'⟩ : ∃ scope', startScope visible target companions' = .ok scope' :=
    exists_startScope_iff.2 hcompatible
  have hscope : scope' = scope := by
    refine Scope.ext fun simple => Option.ext fun b => ?_
    simp only [binding?_of_startScope_iff h, binding?_of_startScope_iff h', hnames]
  rw [h', hscope]

/-- **When a unit can be started, and over which scope.**  A target in the default package is
refused first.  Otherwise the unit cannot be started exactly if two names among target and
companions are different types with one simple name, and the error tells the first companion that
an earlier name is in the way of, and that name.  If it can be started, its scope has the target
and the companions reserved; of the other simple names it has those of visible types, each bound to
the first of them; and it has no more.  Companions may come in any order and more than once. -/
theorem start_outcome (visible : Visibility) (target : TypeName) (companions : List TypeName)
    (features : Features) :
    (∀ q, start visible target companions features = .error (.defaultPackage q) ↔
        target.package = [] ∧ q = target) ∧
      (target.package ≠ [] →
        ((∃ e, start visible target companions features = .error e) ↔
          ∃ p ∈ target :: companions, ∃ q ∈ target :: companions,
            p.simpleName = q.simpleName ∧ p ≠ q) ∧
        ∀ e, start visible target companions features = .error e ↔
          ∃ reserved requested, FirstConflict (target :: companions) reserved requested ∧
            e = .reservedConflict reserved requested) ∧
      (∀ u, start visible target companions features = .ok u → ∀ simple b,
        u.scope.binding? simple = some b ↔
          (b.reserved = true ∧ b.owner ∈ target :: companions ∧ b.owner.simpleName = simple) ∨
            (b.reserved = false ∧ (∀ p ∈ target :: companions, p.simpleName ≠ simple) ∧
              (visible target).find? (·.simpleName == simple) = some b.owner)) ∧
      ∀ companions', (∀ q, q ∈ companions' ↔ q ∈ companions) → ∀ u,
        start visible target companions' features = .ok u ↔
          start visible target companions features = .ok u := by
  have herror (hpackage : target.package ≠ []) (e : EmitError) :
      start visible target companions features = .error e ↔
        ∃ reserved requested, FirstConflict (target :: companions) reserved requested ∧
          e = .reservedConflict reserved requested := by
    rw [start_eq_error_iff, startScope_eq_error_iff]
    simp [hpackage]
  refine ⟨?_, ?_, ?_, ?_⟩
  · intro q
    by_cases hpackage : target.package = []
    · simp [start_eq_error_iff, hpackage]
    · rw [herror hpackage]
      simp [hpackage]
  · intro hpackage
    refine ⟨?_, herror hpackage⟩
    rw [← not_compatible_iff]
    constructor
    · rintro ⟨e, he⟩
      obtain ⟨p, q, hfirst, -⟩ := (herror hpackage e).1 he
      exact hfirst.not_compatible
    · intro h
      obtain ⟨p, q, hfirst⟩ := exists_firstConflict h
      exact ⟨_, (herror hpackage _).2 ⟨p, q, hfirst, rfl⟩⟩
  · intro u h simple b
    obtain ⟨-, scope, hscope, rfl⟩ := start_eq_ok_iff.1 h
    exact binding?_of_startScope_iff hscope
  · intro companions' hmem u
    rw [start_eq_ok_iff, start_eq_ok_iff]
    refine and_congr_right fun _ => exists_congr fun scope => and_congr_left fun _ => ?_
    exact ⟨startScope_eq_ok_of_mem_iff fun q => (hmem q).symm,
      startScope_eq_ok_of_mem_iff hmem⟩

/-- The second of three companions is refused for the sake of the target.  Without it a companion
may be repeated and the target may be its own companion, and of two visible types of one name the
first has it. -/
theorem start_outcome_widget :
    start Visibility.nothing ⟨["com", "example"], ["Widget"]⟩
        [⟨["com", "example"], ["Builder"]⟩, ⟨["org", "acme"], ["Widget"]⟩,
          ⟨["org", "acme"], ["Builder"]⟩] .empty =
        .error (.reservedConflict ⟨["com", "example"], ["Widget"]⟩
          ⟨["org", "acme"], ["Widget"]⟩) ∧
      ∃ u, start (.only [⟨["org", "acme"], ["Widget"]⟩, ⟨["java", "util"], ["List"]⟩,
            ⟨["java", "awt"], ["List"]⟩]) ⟨["com", "example"], ["Widget"]⟩
          [⟨["com", "example"], ["Builder"]⟩, ⟨["com", "example"], ["Widget"]⟩,
            ⟨["com", "example"], ["Builder"]⟩] .empty = .ok u ∧
        u.scope.binding? "Widget" = some ⟨⟨["com", "example"], ["Widget"]⟩, true⟩ ∧
        u.scope.binding? "List" = some ⟨⟨["java", "util"], ["List"]⟩, false⟩ := by
  constructor
  · obtain ⟨-, hconflict, -, -⟩ := start_outcome Visibility.nothing
      ⟨["com", "example"], ["Widget"]⟩ [⟨["com", "example"], ["Builder"]⟩,
        ⟨["org", "acme"], ["Widget"]⟩, ⟨["org", "acme"], ["Builder"]⟩] .empty
    refine ((hconflict (by decide)).2 _).2 ⟨_, _, ?_, rfl⟩
    exact ⟨[⟨["com", "example"], ["Widget"]⟩, ⟨["com", "example"], ["Builder"]⟩],
      [⟨["org", "acme"], ["Builder"]⟩], rfl, by decide, by decide, by decide, by decide⟩
  · let visible := Visibility.only [⟨["org", "acme"], ["Widget"]⟩, ⟨["java", "util"], ["List"]⟩,
      ⟨["java", "awt"], ["List"]⟩]
    let companions : List TypeName :=
      [⟨["com", "example"], ["Widget"]⟩, ⟨["com", "example"], ["Builder"]⟩]
    obtain ⟨-, -, hscope, hcompanions⟩ :=
      start_outcome visible ⟨["com", "example"], ["Widget"]⟩ companions .empty
    have hcompatible : Compatible (⟨["com", "example"], ["Widget"]⟩ :: companions) := by decide
    obtain ⟨scope, hstartScope⟩ := exists_startScope_iff.2 hcompatible
    have hok : start visible ⟨["com", "example"], ["Widget"]⟩ companions .empty =
        .ok (fresh ⟨["com", "example"], ["Widget"]⟩ .empty scope) :=
      start_eq_ok_iff.2 ⟨by decide, scope, hstartScope, rfl⟩
    refine ⟨_, (hcompanions _ ?_ _).2 hok, (hscope _ hok _ _).2 (.inl (by decide)),
      (hscope _ hok _ _).2 (.inr (by decide))⟩
    intro q
    simp only [companions, List.mem_cons, List.not_mem_nil, or_false]
    exact ⟨fun h => h.elim .inr id, .inr⟩

end CompilationUnit
end JavaUnit
