import JavaUnit.Unit.Basic

/-!
# A unit that has just been started

`start_eq_ok_iff` says what starting a unit gives; everything else known of a fresh unit is
read off there.  Nothing has been written but the preamble, no block is open, and neither a
reference nor a failure is on record.
-/

namespace JavaUnit
namespace CompilationUnit

variable {visible : Visibility} {target : TypeName} {companions : List TypeName}
  {features : Features} {u : CompilationUnit}

/-- The unit for `target` over a scope, with nothing written but its preamble. -/
def fresh (target : TypeName) (features : Features) (scope : Scope) : CompilationUnit where
  target := target
  features := features
  draft := { text := preamble target, scope, package := target.package }

/-- A unit starts if its target is in a named package and the reservations agree. -/
theorem start_eq_ok_iff :
    start visible target companions features = .ok u ↔
      target.package ≠ [] ∧
        ∃ scope, startScope visible target companions = .ok scope ∧
          u = fresh target features scope := by
  unfold start
  by_cases hpackage : target.package = []
  · simp [hpackage, throw, throwThe, MonadExceptOf.throw, bind, Except.bind]
  · cases hscope : startScope visible target companions with
    | error e => simp [hpackage, bind, Except.bind]
    | ok scope =>
        simp only [hpackage, if_false, bind, Except.bind, pure, Except.pure, Except.ok.injEq,
          ne_eq, not_false_eq_true, true_and]
        constructor
        · rintro rfl
          exact ⟨scope, rfl, rfl⟩
        · rintro ⟨scope', rfl, rfl⟩
          rfl

/-- What keeps a unit from being started: a target in the default package, before anything else,
or a reservation. -/
theorem start_eq_error_iff {e : EmitError} :
    start visible target companions features = .error e ↔
      (target.package = [] ∧ e = .defaultPackage target) ∨
        (target.package ≠ [] ∧ startScope visible target companions = .error e) := by
  unfold start
  by_cases hpackage : target.package = []
  · simp [hpackage, throw, throwThe, MonadExceptOf.throw, bind, Except.bind, eq_comm]
  · cases hscope : startScope visible target companions with
    | error e' => simp [hpackage, bind, Except.bind]
    | ok scope => simp [hpackage, bind, Except.bind, pure, Except.pure]

/-- With no companions the target alone is reserved. -/
theorem start_alone (visible : Visibility) (target : TypeName) (features : Features)
    (hpackage : target.package ≠ []) :
    start visible target [] features =
      .ok (fresh target features ((Scope.empty.claim target true).see visible target)) := by
  refine start_eq_ok_iff.2 ⟨hpackage, _, ?_, rfl⟩
  simp [startScope, Scope.reserve, bind, Except.bind, pure, Except.pure]

/-- With no companions and nothing visible, the target is all that the scope knows. -/
theorem start_nothing (target : TypeName) (features : Features) (hpackage : target.package ≠ []) :
    start Visibility.nothing target [] features =
      .ok (fresh target features (Scope.empty.claim target true)) :=
  start_alone Visibility.nothing target features hpackage

theorem target_of_start (h : start visible target companions features = .ok u) :
    u.target = target := by
  obtain ⟨-, scope, -, rfl⟩ := start_eq_ok_iff.1 h
  rfl

end CompilationUnit
end JavaUnit
