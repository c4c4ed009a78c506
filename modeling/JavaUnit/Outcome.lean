/-!
# Steps that leave a state behind

A step on a unit that fails still leaves the unit in some state, and later steps go on from
there.  So the result of a step is not "a state or an error" but a state with, perhaps, an
error beside it.

A run over a list stops at the first step that fails and keeps the state it left.
-/

namespace JavaUnit

/-- The state after a step, and the error if the step failed. -/
structure Outcome (σ ε : Type) where
  state : σ
  error? : Option ε
  deriving DecidableEq, Repr

namespace Outcome

variable {σ ε ε' α : Type}

/-- A step that succeeded. -/
def ok (s : σ) : Outcome σ ε := ⟨s, none⟩

/-- A step that failed and left `s`. -/
def fail (s : σ) (e : ε) : Outcome σ ε := ⟨s, some e⟩

/-- Goes on with `next` unless the step failed. -/
def andThen (o : Outcome σ ε) (next : σ → Outcome σ ε) : Outcome σ ε :=
  match o.error? with
  | none => next o.state
  | some _ => o

/-- Takes one step per element and stops at the first that fails. -/
def each (step : σ → α → Outcome σ ε) (s : σ) : List α → Outcome σ ε
  | [] => ok s
  | a :: rest => (step s a).andThen (each step · rest)

/-- The same outcome with its error told in other terms. -/
def mapError (f : ε → ε') (o : Outcome σ ε) : Outcome σ ε' :=
  ⟨o.state, o.error?.map f⟩

@[simp] theorem state_ok (s : σ) : (ok s : Outcome σ ε).state = s := rfl

@[simp] theorem error?_ok (s : σ) : (ok s : Outcome σ ε).error? = none := rfl

@[simp] theorem state_fail (s : σ) (e : ε) : (fail s e).state = s := rfl

@[simp] theorem error?_fail (s : σ) (e : ε) : (fail s e).error? = some e := rfl

@[simp] theorem andThen_ok (s : σ) (next : σ → Outcome σ ε) :
    (ok s).andThen next = next s := rfl

@[simp] theorem andThen_fail (s : σ) (e : ε) (next : σ → Outcome σ ε) :
    (fail s e).andThen next = fail s e := rfl

theorem eq_ok_state {o : Outcome σ ε} (h : o.error? = none) : o = ok o.state :=
  congrArg (Outcome.mk o.state) h

theorem andThen_of_ok {o : Outcome σ ε} (h : o.error? = none) (next : σ → Outcome σ ε) :
    o.andThen next = next o.state := by
  simp [andThen, h]

theorem andThen_of_error {o : Outcome σ ε} {e : ε} (h : o.error? = some e)
    (next : σ → Outcome σ ε) : o.andThen next = o := by
  simp [andThen, h]

/-- Two steps in a row succeed if the first does and the second does from there. -/
theorem andThen_eq_ok_iff {o : Outcome σ ε} {next : σ → Outcome σ ε} {s : σ} :
    o.andThen next = ok s ↔ o.error? = none ∧ next o.state = ok s := by
  obtain ⟨t, _ | e⟩ := o
  · exact ⟨fun h => ⟨rfl, h⟩, fun h => h.2⟩
  · exact ⟨fun h => absurd (congrArg Outcome.error? h) (by simp [andThen]),
      fun h => absurd h.1 (by simp)⟩

theorem andThen_congr (o : Outcome σ ε) {f g : σ → Outcome σ ε} (h : ∀ s, f s = g s) :
    o.andThen f = o.andThen g :=
  congrArg o.andThen (funext h)

theorem andThen_assoc (o : Outcome σ ε) (f g : σ → Outcome σ ε) :
    (o.andThen f).andThen g = o.andThen fun s => (f s).andThen g := by
  obtain ⟨s, _ | e⟩ := o <;> rfl

@[simp] theorem each_nil (step : σ → α → Outcome σ ε) (s : σ) :
    each step s [] = ok s := rfl

@[simp] theorem each_cons (step : σ → α → Outcome σ ε) (s : σ) (a : α) (rest : List α) :
    each step s (a :: rest) = (step s a).andThen (each step · rest) := rfl

/-- A run over two lists in a row is the run over the first, then over the second. -/
theorem each_append (step : σ → α → Outcome σ ε) (s : σ) (as bs : List α) :
    each step s (as ++ bs) = (each step s as).andThen (each step · bs) := by
  induction as generalizing s with
  | nil => rfl
  | cons a as ih => simp [andThen_assoc, ih]

/-- A run over images takes the steps of the images. -/
theorem each_map {β : Type} (step : σ → β → Outcome σ ε) (f : α → β) (s : σ) (as : List α) :
    each step s (as.map f) = each (fun s a => step s (f a)) s as := by
  induction as generalizing s with
  | nil => rfl
  | cons a as ih => exact andThen_congr _ ih

/-- What every step preserves, a run preserves. -/
theorem each_invariant {step : σ → α → Outcome σ ε} {P : σ → Prop}
    (hstep : ∀ s a, P s → P (step s a).state) {s : σ} (hs : P s) (as : List α) :
    P (each step s as).state := by
  induction as generalizing s with
  | nil => exact hs
  | cons a as ih =>
      rw [each_cons]
      cases herror : (step s a).error? with
      | none =>
          rw [andThen_of_ok herror]
          exact ih (hstep s a hs)
      | some e =>
          rw [andThen_of_error herror]
          exact hstep s a hs

/-- Errors are told in other terms step by step. -/
theorem mapError_andThen (f : ε → ε') (o : Outcome σ ε) (next : σ → Outcome σ ε) :
    (o.andThen next).mapError f = (o.mapError f).andThen fun s => (next s).mapError f := by
  obtain ⟨s, _ | e⟩ := o <;> rfl

theorem eq_ok_of_mapError {f : ε → ε'} {o : Outcome σ ε} {s : σ} (h : o.mapError f = ok s) :
    o = ok s := by
  obtain ⟨hstate, herror⟩ := Outcome.mk.inj h
  rw [← hstate]
  exact congrArg (Outcome.mk _) (Option.map_eq_none_iff.1 herror)

end Outcome
end JavaUnit
