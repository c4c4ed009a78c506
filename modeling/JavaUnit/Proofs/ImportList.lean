import JavaUnit.Proofs.Ownership
import JavaUnit.Unit.Imports

/-!
# What a unit imports

The imports of a unit are read off its scope: the names that were claimed on first use, less the
types that a reader of the file finds without an import.  A type is among them exactly if its own
simple name was claimed for it (`mem_imports_iff`), because every name stands for a type that has
it.

Nothing leaves the list again.  The scope grows, the target stays, and no claim is made firmer
after the start (`Reaches.imports_subset`).

The list is complete for the text: what was ever written by its simple name owns the name from
then on, and what owns its name is reserved, found anyway, or imported
(`imported_of_owns`).
-/

namespace JavaUnit
namespace CompilationUnit

variable {u v : CompilationUnit} {history : List BlockStep} {q : TypeName}

/-! ## Membership -/

/-- The two ways of finding a type without an import: by its package, as a type declared right in
it, or by the target, as a type declared in the target or around it. -/
theorem seenWithoutImport_iff {target : TypeName} :
    seenWithoutImport target q = true ↔
      (q.isTopLevel = true ∧ (q.package = target.package ∨ q.package = JavaLang.package)) ∨
        (q.package = target.package ∧ q.outermost? = target.outermost?) := by
  simp only [seenWithoutImport, Bool.or_eq_true, Bool.and_eq_true, beq_iff_eq]

theorem seenWithoutImport_eq_false_iff {target : TypeName} :
    seenWithoutImport target q = false ↔
      ¬(q.isTopLevel = true ∧ (q.package = target.package ∨ q.package = JavaLang.package)) ∧
        ¬(q.package = target.package ∧ q.outermost? = target.outermost?) := by
  rw [← Bool.not_eq_true, seenWithoutImport_iff, not_or]

/-- Imports are a matter of the scope and the target. -/
theorem imports_congr (hscope : u.scope = v.scope) (htarget : u.target = v.target) :
    u.imports = v.imports := by
  rw [imports, imports, hscope, htarget]

/-- A type is imported if its simple name was claimed for it on first use and it is not found
otherwise. -/
theorem mem_imports_iff (hu : u.scope.Coherent) :
    q ∈ u.imports ↔
      u.scope.binding? q.simpleName = some ⟨q, false⟩ ∧ seenWithoutImport u.target q = false := by
  rw [imports, List.mem_mergeSort, List.mem_filter, List.mem_filterMap, Bool.not_eq_true']
  refine and_congr_left fun _ => ?_
  constructor
  · rintro ⟨⟨simple, owner, reserved⟩, hmem, howner⟩
    cases reserved with
    | true => exact absurd howner (by simp)
    | false =>
        obtain rfl : owner = q := Option.some.inj howner
        have hbinding := Scope.mem_toList_iff.1 hmem
        rw [hu simple _ hbinding]
        exact hbinding
  · intro hbinding
    exact ⟨(q.simpleName, ⟨q, false⟩), Scope.mem_toList_iff.2 hbinding, rfl⟩

/-- What is imported at a point of a run is imported at every later point. -/
theorem Reaches.imports_subset (hu : u.scope.Coherent) (h : Reaches u history v)
    (hq : q ∈ u.imports) : q ∈ v.imports := by
  rw [mem_imports_iff (h.coherent hu), h.target_eq]
  obtain ⟨hbinding, hseen⟩ := (mem_imports_iff hu).1 hq
  exact ⟨h.grows _ _ hbinding, hseen⟩

/-- A type that owns its simple name is reserved, found without an import, or imported. -/
theorem imported_of_owns (hu : u.scope.Coherent) (hq : u.scope.Owns q) :
    u.scope.binding? q.simpleName = some ⟨q, true⟩ ∨ seenWithoutImport u.target q = true ∨
      q ∈ u.imports := by
  obtain ⟨⟨owner, reserved⟩, hbinding, rfl⟩ := hq
  cases reserved with
  | true => exact .inl hbinding
  | false =>
      cases hseen : seenWithoutImport u.target owner with
      | true => exact .inr (.inl rfl)
      | false => exact .inr (.inr ((mem_imports_iff hu).2 ⟨hbinding, hseen⟩))

/-! ## Imports in a run -/

variable {visible : Visibility} {target : TypeName} {companions : List TypeName}
  {features : Features}

/-- **The imports are exact, and complete for what is written.**  At every point of a run the
imports are the types whose simple names were claimed on first use, less the top-level types of the
unit's own package and of `java.lang`, and less what is declared in the target or around it.  A
type once imported stays so.  And a type in a named package that is mentioned by its simple name is
from then on reserved, or one of those left out, or imported. -/
theorem Reaches.imports_exact (hstart : start visible target companions features = .ok u)
    (h : Reaches u history v) :
    (∀ q, q ∈ v.imports ↔
        v.scope.binding? q.simpleName = some ⟨q, false⟩ ∧
          ¬(q.isTopLevel = true ∧
            (q.package = target.package ∨ q.package = JavaLang.package)) ∧
          ¬(q.package = target.package ∧ q.outermost? = target.outermost?)) ∧
      (∀ later w, Reaches v later w → ∀ q ∈ v.imports, q ∈ w.imports) ∧
      ∀ edits, ∀ m ∈ v.mentions edits, m.type.InNamedPackage →
        m.spelling = m.type.simpleName → ∀ later w, Reaches m.after later w →
          w.scope.binding? m.type.simpleName = some ⟨m.type, true⟩ ∨
            (m.type.isTopLevel = true ∧
              (m.type.package = target.package ∨ m.type.package = JavaLang.package)) ∨
            (m.type.package = target.package ∧ m.type.outermost? = target.outermost?) ∨
            m.type ∈ w.imports := by
  have htarget {history : List BlockStep} {v : CompilationUnit} (h : Reaches u history v) :
      v.target = target := h.target_eq.trans (target_of_start hstart)
  have hcoherent : v.scope.Coherent := h.coherent (coherent_of_start hstart)
  refine ⟨?_, ?_, ?_⟩
  · intro q
    rw [mem_imports_iff hcoherent, htarget h, seenWithoutImport_eq_false_iff]
  · intro later w hw q hq
    exact hw.imports_subset hcoherent hq
  · intro edits m hm hnamed hsimple later w hw
    obtain ⟨-, next, -, hafter⟩ := h.of_mem_mentions hm
    have hreach := hafter.trans hw
    have howns : w.scope.Owns m.type :=
      ((within_mentions hm).owns_of_simpleName hnamed hsimple).2.mono hw.grows
    rcases imported_of_owns (hreach.coherent (coherent_of_start hstart)) howns with
      hreserved | hseen | himported
    · exact .inl hreserved
    · rw [htarget hreach, seenWithoutImport_iff] at hseen
      rcases hseen with hpackage | hown
      · exact .inr (.inl hpackage)
      · exact .inr (.inr (.inl hown))
    · exact .inr (.inr (.inr himported))

/-- Of a list, a neighbour in the package and a builder of the target only the list is imported,
from its mention on, and it still is after a brace that closes nothing. -/
theorem Reaches.imports_exact_list :
    ∃ u v m history,
      start Visibility.nothing ⟨["com", "example"], ["Widget"]⟩ [] .empty = .ok u ∧
      Reaches u history v ∧ (∀ q, q ∈ v.imports ↔ q = ⟨["java", "util"], ["List"]⟩) ∧
      (v.append '}').state.draft.isPoisoned = true ∧
      ⟨["java", "util"], ["List"]⟩ ∈ (v.append '}').state.imports ∧
      m ∈ u.mentions [.type ⟨["java", "util"], ["List"]⟩,
        .spell ⟨["com", "example"], ["Helper"]⟩,
        .type ⟨["com", "example"], ["Widget", "Builder"]⟩] ∧
      m.spelling = "List" ∧ ⟨["java", "util"], ["List"]⟩ ∈ m.after.imports := by
  have hstart := start_nothing ⟨["com", "example"], ["Widget"]⟩ .empty (by decide)
  let u := fresh ⟨["com", "example"], ["Widget"]⟩ .empty
    (Scope.empty.claim ⟨["com", "example"], ["Widget"]⟩ true)
  let edits : List Edit := [.type ⟨["java", "util"], ["List"]⟩,
    .spell ⟨["com", "example"], ["Helper"]⟩, .type ⟨["com", "example"], ["Widget", "Builder"]⟩]
  obtain ⟨history, hreach⟩ := Reaches.refl (u := u).editAll edits
  obtain ⟨hexact, hstays, -⟩ := hreach.imports_exact hstart
  have hscope : (u.editAll edits).scope.toList =
      [("Builder", ⟨⟨["com", "example"], ["Widget", "Builder"]⟩, false⟩),
        ("Helper", ⟨⟨["com", "example"], ["Helper"]⟩, false⟩),
        ("List", ⟨⟨["java", "util"], ["List"]⟩, false⟩),
        ("Widget", ⟨⟨["com", "example"], ["Widget"]⟩, true⟩)] := by
    decide +kernel
  have himports (q : TypeName) :
      q ∈ (u.editAll edits).imports ↔ q = ⟨["java", "util"], ["List"]⟩ := by
    rw [hexact, ← Scope.mem_toList_iff, hscope]
    constructor
    · rintro ⟨hmem, hpackage, hown⟩
      simp only [List.mem_cons, Prod.mk.injEq, Binding.mk.injEq, List.not_mem_nil] at hmem
      rcases hmem with ⟨-, rfl, -⟩ | ⟨-, rfl, -⟩ | ⟨-, rfl, -⟩ | ⟨-, rfl, hreserved⟩ | hnil
      · exact absurd (by decide) hown
      · exact absurd (by decide) hpackage
      · rfl
      · exact absurd hreserved (by decide)
      · exact hnil.elim
    · rintro rfl
      decide
  have hmentions : (u.mentions edits).map (fun m => (m.type, m.spelling)) =
      [(⟨["java", "util"], ["List"]⟩, "List"), (⟨["com", "example"], ["Helper"]⟩, "Helper"),
        (⟨["com", "example"], ["Widget", "Builder"]⟩, "Builder")] := by
    decide +kernel
  obtain ⟨m, hm, hmspelling⟩ := List.mem_map.1 (hmentions ▸ List.mem_cons_self)
  obtain ⟨hmtype, hmspelling⟩ := Prod.mk.inj hmspelling
  obtain ⟨-, -, hcomplete⟩ := (Reaches.refl (u := u)).imports_exact hstart
  refine ⟨u, _, m, _, hstart, hreach, himports, ?_, ?_, hm, hmspelling, ?_⟩
  · decide +kernel
  · exact hstays _ _ (Reaches.refl.append '}') _ ((himports _).2 rfl)
  · have hnamed : m.type.InNamedPackage := by
      rw [hmtype]
      decide
    have hsimple : m.spelling = m.type.simpleName := by
      rw [hmspelling, hmtype]
      decide
    have hfound := hcomplete edits m hm hnamed hsimple _ _ Reaches.refl
    rw [hmtype] at hfound
    rcases hfound with hreserved | hpackage | hown | himported
    · have hkept := (within_mentions hm).onward _ _ hreserved
      have hbound : (u.editAll edits).scope.binding? "List" =
          some ⟨⟨["java", "util"], ["List"]⟩, false⟩ := by
        decide +kernel
      exact absurd (hkept.symm.trans hbound) (by decide)
    · exact absurd hpackage (by decide)
    · exact absurd hown (by decide)
    · exact himported

end CompilationUnit
end JavaUnit
