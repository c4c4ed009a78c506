import JavaUnit.Proofs.References

/-!
# Declared types and the spelling of others

A type shadows while the block around its body is open.  `BlockStep.Shadowing` says so of the
history of a run, and what is said here is that the spelling of a reference goes by it: if a
type of the same simple name shadows, the reference is spelled in full and claims nothing, and
otherwise the scope alone decides, as if nothing had been declared.

The list of shadows in a draft is only looked at to get from one to the other
(`Draft.Records.shadowing_iff`).
-/

namespace JavaUnit

namespace Draft

/-- The types among the shadows of a draft are those that its history has shadowing. -/
theorem Records.shadowing_iff {history : List BlockStep} {d : Draft} (h : Records history d)
    (D : TypeName) :
    BlockStep.Shadowing history D ↔ ∃ shadow ∈ d.shadows, shadow.type = D := by
  rw [BlockStep.shadowing_iff_exists_declared]
  constructor
  · rintro ⟨n, hdeclared⟩
    exact ⟨⟨n, D⟩, (h.mem_shadows_iff ⟨n, D⟩).2 hdeclared, rfl⟩
  · rintro ⟨shadow, hmem, rfl⟩
    exact ⟨shadow.depth, (h.mem_shadows_iff shadow).1 hmem⟩

/-- A type is shadowed by the others of its simple name. -/
theorem Records.isShadowed_iff {history : List BlockStep} {d : Draft} (h : Records history d)
    (q : TypeName) :
    d.isShadowed q = true ↔
      ∃ D, BlockStep.Shadowing history D ∧ D ≠ q ∧ D.simpleName = q.simpleName := by
  rw [Draft.isShadowed_iff]
  constructor
  · rintro ⟨shadow, hmem, hne, hname⟩
    exact ⟨shadow.type, (h.shadowing_iff _).2 ⟨shadow, hmem, rfl⟩, hne, hname⟩
  · rintro ⟨D, hshadowing, hne, hname⟩
    obtain ⟨shadow, hmem, rfl⟩ := (h.shadowing_iff D).1 hshadowing
    exact ⟨shadow, hmem, hne, hname⟩

end Draft

namespace CompilationUnit

theorem spell_of_isShadowed {v : CompilationUnit} {q : TypeName}
    (h : v.draft.isShadowed q = true) : v.spell q = (q.dotted, v) := by
  simp [spell, Draft.spell, Draft.spelling, h]

/-- A type that is not shadowed is spelled by the scope. -/
theorem spell_of_isShadowed_eq_false {v : CompilationUnit} {q : TypeName}
    (h : v.draft.isShadowed q = false) :
    v.spell q = ((v.scope.spell q).1,
      { v with draft := { v.draft with scope := (v.scope.spell q).2 } }) := by
  simp [spell, Draft.spell, Draft.spelling, scope, h]

variable {visible : Visibility} {target : TypeName} {companions : List TypeName}
  {features : Features} {u v : CompilationUnit} {history : List BlockStep}

/-- **Declared types shadow while the block around them is open.**  At every point of a run the
types that shadow are those that the history of its blocks has shadowing.  A type that shares
its simple name with another one of them is spelled in full, and the unit stays as it is.  Any
other type is spelled by the scope, and nothing but the scope changes.  A reference, where one
is taken, adds to the text and to the scope what the spelling says. -/
theorem Reaches.shadowing (hstart : start visible target companions features = .ok u)
    (h : Reaches u history v) (q : TypeName) :
    (∀ D, (∃ shadow ∈ v.draft.shadows, shadow.type = D) ↔ BlockStep.Shadowing history D) ∧
      ((∃ D, BlockStep.Shadowing history D ∧ D ≠ q ∧ D.simpleName = q.simpleName) →
        v.spell q = (q.dotted, v)) ∧
      ((¬∃ D, BlockStep.Shadowing history D ∧ D ≠ q ∧ D.simpleName = q.simpleName) →
        v.spell q = ((v.scope.spell q).1,
          { v with draft := { v.draft with scope := (v.scope.spell q).2 } })) ∧
      (v.draft.isPoisoned = false → v.lexer.inReference = false → q.Valid →
        (v.appendType q).error? = none ∧
          (v.appendType q).state.text = v.text ++ (v.spell q).1 ∧
          (v.appendType q).state.scope = (v.spell q).2.scope) := by
  have hrecords := h.records (records_of_start hstart)
  refine ⟨fun D => (hrecords.shadowing_iff D).symm, fun hshadowed => ?_, fun hclear => ?_,
    fun hok hmark hq => ?_⟩
  · exact spell_of_isShadowed ((hrecords.isShadowed_iff q).2 hshadowed)
  · rw [← hrecords.isShadowed_iff, Bool.not_eq_true] at hclear
    exact spell_of_isShadowed_eq_false hclear
  · obtain ⟨htaken, htext, hscope, -⟩ := (h.atRest hstart hok hmark).appendType_spell hq
    exact ⟨htaken, htext, hscope⟩

/-- A class in a method shadows to the end of the method: before it a type of that name is
spelled in full, and after it the simple name is still to be had. -/
theorem Reaches.shadowing_local :
    ∃ u v w history history',
      start Visibility.nothing ⟨["com", "example"], ["Widget"]⟩ [] .empty = .ok u ∧
      Reaches u history v ∧ Reaches u history' w ∧
      v.text = preamble ⟨["com", "example"], ["Widget"]⟩ ++
        "class Widget\x7bvoid f()\x7bclass List\x7b\x7d" ∧
      w.text = v.text ++ "\x7d" ∧
      BlockStep.Shadowing history ⟨["com", "example"], ["Widget", "List"]⟩ ∧
      ¬BlockStep.Shadowing history' ⟨["com", "example"], ["Widget", "List"]⟩ ∧
      v.spell ⟨["java", "util"], ["List"]⟩ = ("java.util.List", v) ∧
      (w.spell ⟨["java", "util"], ["List"]⟩).1 = "List" := by
  have hstart := start_nothing ⟨["com", "example"], ["Widget"]⟩ .empty (by decide)
  let u := fresh ⟨["com", "example"], ["Widget"]⟩ .empty
    (Scope.empty.claim ⟨["com", "example"], ["Widget"]⟩ true)
  let method := "class Widget\x7bvoid f()\x7bclass List\x7b\x7d".toList
  obtain ⟨history, hinside⟩ := Reaches.refl (u := u).appendList method
  obtain ⟨history', houtside⟩ := Reaches.refl (u := u).appendList (method ++ ['}'])
  obtain ⟨hshadows, hfull, -, -⟩ := hinside.shadowing hstart ⟨["java", "util"], ["List"]⟩
  obtain ⟨hshadows', -, hsimple, -⟩ := houtside.shadowing hstart ⟨["java", "util"], ["List"]⟩
  have hshadowing : BlockStep.Shadowing (history ++ [])
      ⟨["com", "example"], ["Widget", "List"]⟩ := by
    refine (hshadows _).1 ⟨⟨2, ⟨["com", "example"], ["Widget", "List"]⟩⟩, ?_, rfl⟩
    decide +kernel
  have hnone (D : TypeName) (hD : BlockStep.Shadowing (history' ++ []) D) :
      D.simpleName ≠ "List" := by
    obtain ⟨shadow, hmem, rfl⟩ := (hshadows' D).2 hD
    have hall : ∀ shadow ∈ (u.appendList (method ++ ['}'])).state.draft.shadows,
        shadow.type.simpleName ≠ "List" := by
      decide +kernel
    exact hall shadow hmem
  refine ⟨u, _, _, _, _, hstart, hinside, houtside, ?_, ?_, hshadowing, ?_, ?_, ?_⟩
  · decide +kernel
  · decide +kernel
  · exact fun hD => hnone _ hD (by decide)
  · exact hfull ⟨_, hshadowing, by decide, by decide⟩
  · have hclear : ¬∃ D, BlockStep.Shadowing (history' ++ []) D ∧
        D ≠ ⟨["java", "util"], ["List"]⟩ ∧ D.simpleName = "List" := by
      rintro ⟨D, hD, -, hname⟩
      exact hnone D hD hname
    rw [hsimple hclear]
    decide +kernel

end CompilationUnit
end JavaUnit
