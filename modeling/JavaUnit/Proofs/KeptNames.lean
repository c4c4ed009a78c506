import JavaUnit.Proofs.ImportList
import JavaUnit.Proofs.Shadowing
import Mathlib.Data.List.Basic

/-!
# Names that are kept

What a simple name stands for when a unit is started, it stands for in every run.  So the owner is
mentioned by the name whenever no declared type shadows it, and any other type of the name is
mentioned in full, shadowed or not (`Reaches.spelling_of_binding`).

Among the names claimed at the start can be those of `java.lang`.  A listed name is then reserved or
bound to the type of `java.lang` (`binding_of_listed`), and neither is ever imported.  So no import
can hide a listed type.
-/

namespace JavaUnit

/-- A listed simple name is that of one listed type. -/
theorem JavaLang.find?_types {simple : String} (h : lists simple = true) :
    types.find? (·.simpleName == simple) = some (named simple) := by
  have hmem : simple ∈ simpleNames := List.contains_iff_mem.1 h
  cases hfind : types.find? (·.simpleName == simple) with
  | none =>
      have hnone := List.find?_eq_none.1 hfind (named simple) (List.mem_map_of_mem hmem)
      exact absurd (beq_self_eq_true simple) hnone
  | some q =>
      obtain ⟨other, -, rfl⟩ := List.mem_map.1 (List.mem_of_find?_eq_some hfind)
      have hname : other = simple := by
        simpa using List.find?_some hfind
      rw [hname]

namespace CompilationUnit

variable {u v : CompilationUnit} {history : List BlockStep} {simple : String} {b : Binding}

/-- **How the types of a kept name are spelled.**  The owner has the name unless a declared type of
that name shadows it.  Any other type of a named package is spelled in full: if it is not shadowed,
then because the name stands for another type. -/
theorem Reaches.spelling_of_binding (hu : u.scope.Coherent) (h : Reaches u history v)
    (hb : u.scope.binding? simple = some b) :
    ((v.spell b.owner).1 = simple ∨
        ∃ shadow ∈ v.draft.shadows,
          shadow.type ≠ b.owner ∧ shadow.type.simpleName = simple) ∧
      ∀ r, r ≠ b.owner → r.simpleName = simple → r.InNamedPackage →
        (v.spell r).1 = r.dotted ∧ (v.spell r).1 ≠ simple := by
  have hname : b.owner.simpleName = simple := hu simple b hb
  have howns : v.scope.Owns b.owner := by
    refine ⟨b, ?_, rfl⟩
    rw [hname]
    exact h.grows simple b hb
  constructor
  · cases hshadow : v.draft.isShadowed b.owner with
    | true =>
        rw [Draft.isShadowed_iff, hname] at hshadow
        exact .inr hshadow
    | false =>
        rw [spell_of_isShadowed_eq_false hshadow, Scope.spell_of_owns howns, hname]
        exact .inl rfl
  · intro r hne hr hnamed
    have hfull : (v.spell r).1 = r.dotted :=
      Draft.spelling_of_owns howns hne (hr.trans hname.symm)
    refine ⟨hfull, ?_⟩
    rw [hfull, ← hr]
    exact TypeName.dotted_ne_simpleName hnamed.1 hnamed.2

variable {visible : Visibility} {target : TypeName} {companions : List TypeName}
  {features : Features}

/-- Where the types of `java.lang` are visible, a listed name is reserved or stands for one of
them. -/
theorem binding_of_listed (h : start Visibility.javaLang target companions features = .ok u)
    (hlisted : JavaLang.lists simple = true) :
    ∃ b, u.scope.binding? simple = some b ∧
      (b.reserved = true ∨ b.owner = JavaLang.named simple) := by
  rw [binding?_of_start h, Visibility.javaLang, JavaLang.find?_types hlisted]
  cases (target :: companions).find? (·.simpleName == simple) with
  | some q => exact ⟨⟨q, true⟩, rfl, .inl rfl⟩
  | none => exact ⟨⟨JavaLang.named simple, false⟩, rfl, .inr rfl⟩

/-- No import takes a listed name. -/
theorem Reaches.lists_eq_false_of_mem_imports
    (hstart : start Visibility.javaLang target companions features = .ok u)
    (h : Reaches u history v) {q : TypeName} (hq : q ∈ v.imports) :
    JavaLang.lists q.simpleName = false := by
  rw [← Bool.not_eq_true]
  intro hlisted
  obtain ⟨b, hb, howner⟩ := binding_of_listed hstart hlisted
  obtain ⟨hbinding, hseen⟩ := (mem_imports_iff (h.coherent (coherent_of_start hstart))).1 hq
  rw [h.grows _ _ hb] at hbinding
  obtain rfl := Option.some.inj hbinding
  rcases howner with hreserved | hnamed
  · exact absurd hreserved (by simp)
  · have hjava : q.isTopLevel = true ∧
        (q.package = v.target.package ∨ q.package = JavaLang.package) := by
      rw [show q = JavaLang.named q.simpleName from hnamed]
      exact ⟨JavaLang.isTopLevel_named _, .inr rfl⟩
    rw [seenWithoutImport_iff.2 (.inl hjava)] at hseen
    exact absurd hseen (by decide)

/-- **A name claimed at the start is kept.**  A unit starts with the names of the target and of the
companions reserved, and with those of the visible types bound where they were free.  Such a name
stands for its owner at every point of every run.  The owner is mentioned by it, unless a declared
type of the same name shadows the owner there, and any other type of that name in a named package
is mentioned in full.  If the types of `java.lang` are visible, no name of a listed one is ever
imported. -/
theorem binding_of_start_kept (hstart : start visible target companions features = .ok u) :
    (∀ simple, u.scope.binding? simple =
        (((target :: companions).find? (·.simpleName == simple)).map (Binding.mk · true)).or
          (((visible target).find? (·.simpleName == simple)).map (Binding.mk · false))) ∧
      (∀ simple b, u.scope.binding? simple = some b →
        (∀ history v, Reaches u history v → v.scope.binding? simple = some b) ∧
          ∀ edits, ∀ m ∈ u.mentions edits,
            (m.type = b.owner → m.spelling = simple ∨
              ∃ shadow ∈ m.before.draft.shadows,
                shadow.type ≠ b.owner ∧ shadow.type.simpleName = simple) ∧
            (m.type ≠ b.owner → m.type.simpleName = simple → m.type.InNamedPackage →
              m.spelling = m.type.dotted ∧ m.spelling ≠ simple)) ∧
      (visible = Visibility.javaLang → ∀ history v, Reaches u history v →
        ∀ q ∈ v.imports, JavaLang.lists q.simpleName = false) := by
  refine ⟨binding?_of_start hstart, ?_, ?_⟩
  · intro simple b hb
    refine ⟨fun history v h => h.grows simple b hb, ?_⟩
    intro edits m hm
    obtain ⟨past, -, hbefore, -⟩ := Reaches.refl.of_mem_mentions hm
    obtain ⟨howner, hother⟩ := hbefore.spelling_of_binding (coherent_of_start hstart) hb
    refine ⟨?_, hother m.type⟩
    intro htype
    rw [Mention.spelling, htype]
    exact howner
  · rintro rfl history v h q hq
    exact h.lists_eq_false_of_mem_imports hstart hq

/-- In a unit for a type `String` that of `java.lang` is mentioned in full, and `Object` by its
simple name.  Another `Object` cannot have the name, and neither name is imported. -/
theorem binding_of_start_kept_javaLang :
    ∃ u string object other,
      start Visibility.javaLang ⟨["com", "example"], ["String"]⟩ [] .empty = .ok u ∧
      u.mentions [.type ⟨["java", "lang"], ["String"]⟩, .type ⟨["java", "lang"], ["Object"]⟩,
        .spell ⟨["org", "acme"], ["Object"]⟩] = [string, object, other] ∧
      string.spelling = "java.lang.String" ∧ object.spelling = "Object" ∧
      other.spelling = "org.acme.Object" ∧
      ∀ q ∈ other.before.imports, q.simpleName ≠ "String" ∧ q.simpleName ≠ "Object" := by
  have hstart := start_alone Visibility.javaLang ⟨["com", "example"], ["String"]⟩ .empty (by decide)
  let u := fresh ⟨["com", "example"], ["String"]⟩ .empty
    ((Scope.empty.claim ⟨["com", "example"], ["String"]⟩ true).see Visibility.javaLang
      ⟨["com", "example"], ["String"]⟩)
  let edits : List Edit := [.type ⟨["java", "lang"], ["String"]⟩,
    .type ⟨["java", "lang"], ["Object"]⟩, .spell ⟨["org", "acme"], ["Object"]⟩]
  obtain ⟨hclaimed, hkept, hlisted⟩ := binding_of_start_kept hstart
  have hstring : u.scope.binding? "String" = some ⟨⟨["com", "example"], ["String"]⟩, true⟩ := by
    rw [hclaimed]
    decide +kernel
  have hobject : u.scope.binding? "Object" = some ⟨⟨["java", "lang"], ["Object"]⟩, false⟩ := by
    rw [hclaimed]
    decide +kernel
  obtain ⟨string, object, other, hmentions⟩ :
      ∃ string object other, u.mentions edits = [string, object, other] :=
    List.length_eq_three.1 (by decide +kernel)
  have hpoints : (u.mentions edits).map (fun m => (m.type, m.before.draft.shadows)) =
      [(⟨["java", "lang"], ["String"]⟩, []), (⟨["java", "lang"], ["Object"]⟩, []),
        (⟨["org", "acme"], ["Object"]⟩, [])] := by
    decide +kernel
  rw [hmentions] at hpoints
  simp only [List.map_cons, List.map_nil, List.cons.injEq, Prod.mk.injEq, and_true] at hpoints
  obtain ⟨⟨htype, -⟩, ⟨htype', hclear⟩, htype'', -⟩ := hpoints
  have hmem (m : Mention) (hm : m ∈ [string, object, other]) : m ∈ u.mentions edits := by
    rwa [hmentions]
  have hfirst := (hkept _ _ hstring).2 edits string (hmem _ (by simp))
  have hsecond := (hkept _ _ hobject).2 edits object (hmem _ (by simp))
  have hthird := (hkept _ _ hobject).2 edits other (hmem _ (by simp))
  refine ⟨u, string, object, other, hstart, hmentions, ?_, ?_, ?_, ?_⟩
  · obtain ⟨hfull, -⟩ := hfirst.2 (by rw [htype]; decide) (by rw [htype]; decide)
      (by rw [htype]; decide)
    rw [hfull, htype]
    decide
  · rcases hsecond.1 htype' with hsimple | ⟨shadow, hshadow, -⟩
    · exact hsimple
    · rw [hclear] at hshadow
      exact absurd hshadow List.not_mem_nil
  · obtain ⟨hfull, -⟩ := hthird.2 (by rw [htype'']; decide) (by rw [htype'']; decide)
      (by rw [htype'']; decide)
    rw [hfull, htype'']
    decide
  · intro q hq
    obtain ⟨past, -, hbefore, -⟩ := Reaches.refl.of_mem_mentions (hmem other (by simp))
    have hunlisted := hlisted rfl past _ hbefore q hq
    constructor
    · intro hname
      rw [hname] at hunlisted
      exact absurd hunlisted (by decide)
    · intro hname
      rw [hname] at hunlisted
      exact absurd hunlisted (by decide)

end CompilationUnit
end JavaUnit
