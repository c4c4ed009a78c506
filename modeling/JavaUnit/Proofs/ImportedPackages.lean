import JavaUnit.Proofs.Bindings
import JavaUnit.Proofs.DeclaredBlocks

/-!
# Which imports name a package

A type is imported because its simple name was claimed for it.  Three things claim simple names: the
start, for the types that are visible then; the body of a member, for the member; and a mention, for
the type that is mentioned (`CompilationUnit.Origin`).  A member is in the package of the unit, and
that has a name.  So an import without a package was there at the start, or a mention has claimed it
(`packages_of_imports`).  Both can happen: the default package is barred for the target, but not for
what is visible or mentioned.
-/

namespace JavaUnit

/-- The mention claims the simple name of its type, which is free, and no other declared type of
that name is visible. -/
def Mention.Claims (m : Mention) : Prop :=
  m.before.scope.binding? m.type.simpleName = none ∧ m.before.draft.isShadowed m.type = false

instance (m : Mention) : Decidable m.Claims :=
  inferInstanceAs (Decidable (_ ∧ _))

namespace CompilationUnit

variable {t u v : CompilationUnit} {history : List BlockStep} {package : List String}
  {earlier later : List Mention} {simple : String} {b : Binding} {q : TypeName}

/-! ## Where a binding comes from -/

/-- Where a binding comes from, in a unit that has been written on from `u` with these mentions:
`u` had it, or it is that of a type declared in the package of the unit, or one of the mentions
claimed it. -/
inductive Origin (u : CompilationUnit) (package : List String) (mentions : List Mention)
    (simple : String) (b : Binding) : Prop where
  | kept (hbinding : u.scope.binding? simple = some b)
  | declared (hpackage : b.owner.package = package)
  | mentioned {m : Mention} (hm : m ∈ mentions) (htype : m.type = b.owner) (hclaims : m.Claims)

/-- What comes from the second part of a run comes from the whole, if the first part accounts for
all that was there in between. -/
theorem Origin.trans (h : Origin v package later simple b)
    (hfirst : v.scope.binding? simple = some b → Origin u package earlier simple b) :
    Origin u package (earlier ++ later) simple b := by
  cases h with
  | kept hbinding =>
      cases hfirst hbinding with
      | kept hbinding => exact .kept hbinding
      | declared hpackage => exact .declared hpackage
      | mentioned hm htype hclaims =>
          exact .mentioned (List.mem_append_left _ hm) htype hclaims
  | declared hpackage => exact .declared hpackage
  | mentioned hm htype hclaims => exact .mentioned (List.mem_append_right _ hm) htype hclaims

/-- Where a type is declared, what is new is a binding of the type. -/
theorem Origin.of_declare (h : (u.scope.declare q).2.binding? simple = some b)
    (hnew : u.scope.binding? q.simpleName = none →
      Origin u package later q.simpleName ⟨q, false⟩) : Origin u package later simple b := by
  rw [Scope.binding?_declare, Option.or_eq_some_iff] at h
  rcases h with h | ⟨hfree, h⟩
  · exact .kept h
  · obtain ⟨rfl, hb⟩ := Option.ite_none_right_eq_some.1 h
    obtain rfl := Option.some.inj hb
    exact hnew hfree

theorem origin_append {c : Char} (hrecords : Draft.Records history u.draft)
    (hnested : u.draft.WellNested package)
    (h : (u.append c).state.scope.binding? simple = some b) :
    Origin u package (u.mention? c).toList simple b := by
  by_cases hclaims : ∃ q, Claims history u c q
  · obtain ⟨q, hq⟩ := hclaims
    rw [scope_append_of_claims hrecords hq] at h
    refine .of_declare h fun hfree => ?_
    cases hq with
    | reference hmention hclear =>
        obtain ⟨hbefore, -⟩ := append_of_mention? hmention
        refine .mentioned (Option.mem_toList.2 hmention) rfl ⟨?_, ?_⟩
        · rwa [hbefore]
        · rw [hbefore]
          exact (isShadowed_eq_false_iff hrecords _).2 hclear
    | member hcode hbody hmember =>
        obtain ⟨hfailed, -⟩ := (claims_iff hrecords).1 (.member hcode hbody hmember)
        obtain ⟨_, -, hdeclared⟩ := (blockStep?_eq_opened_type_iff hfailed hcode).1 hbody
        exact .declared (hnested.of_declared hdeclared).2.1
  · rw [scope_append_of_not_claims hrecords (not_exists.1 hclaims)] at h
    exact .kept h

theorem origin_spell (h : (u.spell q).2.scope.binding? simple = some b) :
    Origin u package [⟨u, q, (u.spell q).2⟩] simple b := by
  cases hshadow : u.draft.isShadowed q with
  | true =>
      rw [spell_of_isShadowed hshadow] at h
      exact .kept h
  | false =>
      have hscope : (u.spell q).2.scope = (u.scope.declare q).2 := by
        rw [spell_of_isShadowed_eq_false hshadow]
        exact u.scope.spell_snd q
      rw [hscope] at h
      exact .of_declare h fun hfree => .mentioned List.mem_cons_self rfl ⟨hfree, hshadow⟩

variable {visible : Visibility} {target : TypeName} {companions : List TypeName}
  {features : Features} {edits : List Edit}

theorem Reaches.origin_appendList (hstart : start visible target companions features = .ok t)
    (h : Reaches t history u) {cs : List Char}
    (hb : (u.appendList cs).state.scope.binding? simple = some b) :
    Origin u target.package (u.mentionsIn cs) simple b := by
  induction cs generalizing history u with
  | nil => exact .kept hb
  | cons c cs ih =>
      have hfirst : (u.append c).state.scope.binding? simple = some b →
          Origin u target.package (u.mention? c).toList simple b :=
        origin_append (h.records (records_of_start hstart)) (h.wellNested hstart)
      rw [appendList_cons] at hb
      rw [mentionsIn]
      cases herror : (u.append c).error? with
      | some e =>
          rw [Outcome.andThen_of_error herror] at hb
          show Origin u target.package ((u.mention? c).toList ++ []) simple b
          rw [List.append_nil]
          exact hfirst hb
      | none =>
          rw [Outcome.andThen_of_ok herror] at hb
          exact (ih (h.append c) hb).trans hfirst

/-- **Every binding has an origin**, at every point of a run.  The induction is on the edits, with
the characters of each followed one by one. -/
theorem Reaches.origin_editAll (hstart : start visible target companions features = .ok t)
    (h : Reaches t history u) (hb : (u.editAll edits).scope.binding? simple = some b) :
    Origin u target.package (u.mentions edits) simple b := by
  induction edits generalizing history u with
  | nil => exact .kept hb
  | cons e edits ih =>
      obtain ⟨later, hlater⟩ := h.edit e
      refine (ih hlater hb).trans fun hfirst => ?_
      rcases u.mentionsOf_cases e with ⟨q, rfl⟩ | ⟨hmentions, hstate⟩
      · rw [mentionsOf_spell]
        exact origin_spell hfirst
      · rw [hmentions]
        rw [hstate] at hfirst
        exact h.origin_appendList hstart hfirst

/-! ## Imports without a package -/

/-- A type of the default package is found nowhere without an import. -/
theorem seenWithoutImport_of_package_eq_nil (htarget : target.package ≠ [])
    (hq : q.package = []) : seenWithoutImport target q = false := by
  have hne : q.package ≠ target.package := fun h => htarget (h.symm.trans hq)
  rw [seenWithoutImport_eq_false_iff]
  refine ⟨?_, fun h => hne h.1⟩
  rintro ⟨-, hpackage | hlang⟩
  · exact hne hpackage
  · rw [hq] at hlang
    exact absurd hlang (by decide)

/-- A mention that claims the simple name of its type binds it from then on. -/
theorem Within.binding?_of_claims {m : Mention} (h : Within u m v) (hclaims : m.Claims) :
    v.scope.binding? m.type.simpleName = some ⟨m.type, false⟩ := by
  obtain ⟨hfree, hclear⟩ := hclaims
  refine h.onward _ _ ?_
  rw [h.spelled, spell_of_isShadowed_eq_false hclear]
  show (m.before.scope.spell m.type).2.binding? _ = _
  rw [Scope.spell_snd]
  exact (Scope.binds_declare hfree).bound

/-- What is imported before anything is written was visible from the start. -/
theorem mem_visible_of_mem_imports (hstart : start visible target companions features = .ok u)
    (hq : q ∈ u.imports) : q ∈ visible target := by
  obtain ⟨hbinding, -⟩ := (mem_imports_iff (coherent_of_start hstart)).1 hq
  exact bindsOnly_of_start (P := (· ∈ visible target)) hstart (fun _ hp => hp) _ _ hbinding rfl

/-- A type without a package is imported if it was from the start, or if a mention of it has claimed
its simple name. -/
theorem mem_imports_iff_of_package_eq_nil
    (hstart : start visible target companions features = .ok u) (hq : q.package = []) :
    q ∈ (u.editAll edits).imports ↔
      q ∈ u.imports ∨ ∃ m ∈ u.mentions edits, m.type = q ∧ m.Claims := by
  obtain ⟨history, hreach⟩ := Reaches.refl (u := u).editAll edits
  have htarget : target.package ≠ [] := (start_eq_ok_iff.1 hstart).1
  have hseen : seenWithoutImport u.target q = false := by
    rw [target_of_start hstart]
    exact seenWithoutImport_of_package_eq_nil htarget hq
  have hcoherent := coherent_of_start hstart
  constructor
  · intro himported
    obtain ⟨hbinding, -⟩ := (mem_imports_iff (hreach.coherent hcoherent)).1 himported
    cases Reaches.refl.origin_editAll hstart hbinding with
    | kept hbinding => exact .inl ((mem_imports_iff hcoherent).2 ⟨hbinding, hseen⟩)
    | declared hpackage => exact absurd (hpackage.symm.trans hq) htarget
    | mentioned hm htype hclaims => exact .inr ⟨_, hm, htype, hclaims⟩
  · rintro (hvisible | ⟨m, hm, rfl, hclaims⟩)
    · exact hreach.imports_subset hcoherent hvisible
    · refine (mem_imports_iff (hreach.coherent hcoherent)).2 ⟨?_, ?_⟩
      · exact (within_mentions hm).binding?_of_claims hclaims
      · rw [hreach.target_eq]
        exact hseen

/-- The line of an import from a named package has the package, a dot and the nesting path. -/
theorem importLine_eq (hpackage : q.package ≠ []) (hpath : q.path ≠ []) :
    importLine q = "import " ++ q.packageName ++ "." ++ Text.dotted q.path ++ ";\n" := by
  rw [importLine, TypeName.dotted, TypeName.segments, Text.dotted_append hpackage hpath]
  simp only [TypeName.packageName, String.append_assoc]

/-- **Imports are from named packages, unless the default package was let in.**  After any edits
the imports are valid names, and the line of each that has a package starts with the package.
Those that have none are the ones that were visible at the start and got their simple name there,
and those for which a mention claimed it.  So if nothing of the kind is visible or claims its name,
all imports have a package. -/
theorem packages_of_imports (hstart : start visible target companions features = .ok u)
    (hvisible : ∀ q ∈ visible target, q.Obtainable) (edits : List Edit)
    (hasked : ∀ q, Edit.spell q ∈ edits → q.Obtainable) :
    (∀ q ∈ (u.editAll edits).imports, q.Valid ∧
        (q.package ≠ [] →
          importLine q = "import " ++ q.packageName ++ "." ++ Text.dotted q.path ++ ";\n")) ∧
      (∀ q, q.package = [] →
        (q ∈ (u.editAll edits).imports ↔
          q ∈ u.imports ∨ ∃ m ∈ u.mentions edits, m.type = q ∧ m.Claims)) ∧
      (∀ q ∈ u.imports, q ∈ visible target) ∧
      ((∀ q ∈ visible target, q.package ≠ []) →
        (∀ m ∈ u.mentions edits, m.Claims → m.type.package ≠ []) →
          ∀ q ∈ (u.editAll edits).imports, q.package ≠ []) := by
  obtain ⟨history, hreach⟩ := Reaches.refl (u := u).editAll edits
  refine ⟨fun q hq => ?_, fun q => mem_imports_iff_of_package_eq_nil hstart,
    fun q => mem_visible_of_mem_imports hstart, ?_⟩
  · have hvalid : q.Valid := valid_of_mem_imports (hreach.coherent (coherent_of_start hstart))
      (bindsOnly_editAll (bindsOnly_of_start hstart hvisible) (fun _ hp => hp.obtainable) hasked) hq
    exact ⟨hvalid, fun hpackage => importLine_eq hpackage hvalid.1⟩
  · intro hnamed hclaims q hq hnone
    rcases (mem_imports_iff_of_package_eq_nil hstart hnone).1 hq with hstarted | ⟨m, hm, rfl, hm'⟩
    · exact hnamed q (mem_visible_of_mem_imports hstart hstarted) hnone
    · exact hclaims m hm hm' hnone

/-- A map is imported from its package, and a list that has no package is imported as well, once it
is mentioned. -/
theorem packages_of_imports_map :
    ∃ u, start Visibility.nothing ⟨["com", "example"], ["Widget"]⟩ [] .empty = .ok u ∧
      ⟨["java", "util"], ["Map"]⟩ ∈ (u.editAll [.type ⟨["java", "util"], ["Map"]⟩]).imports ∧
      (∀ q ∈ (u.editAll [.type ⟨["java", "util"], ["Map"]⟩]).imports, q.package ≠ []) ∧
      importLine ⟨["java", "util"], ["Map"]⟩ = "import java.util.Map;\n" ∧
      ⟨[], ["List"]⟩ ∈
        (u.editAll [.type ⟨["java", "util"], ["Map"]⟩, .type ⟨[], ["List"]⟩]).imports := by
  have hstart := start_nothing ⟨["com", "example"], ["Widget"]⟩ .empty (by decide)
  let u := fresh ⟨["com", "example"], ["Widget"]⟩ .empty
    (Scope.empty.claim ⟨["com", "example"], ["Widget"]⟩ true)
  have hmap : (u.mentions [.type ⟨["java", "util"], ["Map"]⟩]).map (·.type) =
      [⟨["java", "util"], ["Map"]⟩] := by
    decide +kernel
  have hlist : (u.mentions [.type ⟨["java", "util"], ["Map"]⟩, .type ⟨[], ["List"]⟩]).map
      (fun m => (m.type, decide m.Claims)) =
      [(⟨["java", "util"], ["Map"]⟩, true), (⟨[], ["List"]⟩, true)] := by
    decide +kernel
  obtain ⟨m, hm, hmention⟩ :=
    List.mem_map.1 (hlist ▸ List.mem_cons_of_mem _ List.mem_cons_self)
  obtain ⟨htype, hclaims⟩ := Prod.mk.inj hmention
  have hnothing : ∀ q ∈ Visibility.nothing ⟨["com", "example"], ["Widget"]⟩, q.Obtainable :=
    fun q hq => absurd hq List.not_mem_nil
  obtain ⟨hlines, -, -, hnamed⟩ := packages_of_imports hstart hnothing
    [.type ⟨["java", "util"], ["Map"]⟩] (by simp)
  obtain ⟨-, hunnamed, -, -⟩ := packages_of_imports hstart hnothing
    [.type ⟨["java", "util"], ["Map"]⟩, .type ⟨[], ["List"]⟩] (by simp)
  have himported : ⟨["java", "util"], ["Map"]⟩ ∈
      (u.editAll [.type ⟨["java", "util"], ["Map"]⟩]).imports := by
    decide +kernel
  refine ⟨u, hstart, himported, hnamed (by decide) ?_, ?_, ?_⟩
  · intro m hm hclaims
    have htype : m.type ∈ [(⟨["java", "util"], ["Map"]⟩ : TypeName)] :=
      hmap ▸ List.mem_map_of_mem hm
    rw [List.mem_singleton.1 htype]
    decide
  · exact (hlines _ himported).2 (by decide)
  · exact (hunnamed _ rfl).2 (.inr ⟨m, hm, htype, of_decide_eq_true hclaims⟩)

/-- The reference is to a type of the default package, and the line that imports it names none. -/
theorem imported_without_package :
    ∃ u v, start Visibility.nothing ⟨["com", "example"], ["Widget"]⟩ [] .empty = .ok u ∧
      u.appendType ⟨[], ["List"]⟩ = .ok v ∧ v.imports = [⟨[], ["List"]⟩] ∧
      ¬(∀ q ∈ v.imports, q.package ≠ []) ∧
      v.renderWithImports =
        preamble ⟨["com", "example"], ["Widget"]⟩ ++ "import List;\n\nList" := by
  let target : TypeName := ⟨["com", "example"], ["Widget"]⟩
  let u := fresh target .empty (Scope.empty.claim target true)
  let v := (u.appendType ⟨[], ["List"]⟩).state
  have hstart : start Visibility.nothing target [] .empty = .ok u :=
    start_nothing target .empty (by decide)
  have htaken : (u.appendType ⟨[], ["List"]⟩).error? = none := by decide +kernel
  have hscope : v.scope.toList =
      [("List", ⟨⟨[], ["List"]⟩, false⟩), ("Widget", ⟨target, true⟩)] := by
    decide +kernel
  have htarget : v.target = target := by decide +kernel
  have himports : v.imports = [⟨[], ["List"]⟩] := by
    rw [imports, hscope, htarget]
    exact List.mergeSort_of_pairwise (by decide +kernel)
  have hne : v.imports ≠ [] := by
    rw [himports]
    exact List.cons_ne_nil _ _
  have hbody : v.body = "List" := by decide +kernel
  refine ⟨u, v, hstart, Outcome.eq_ok_state htaken, himports, ?_, ?_⟩
  · rw [himports]
    decide
  · rw [renderWithImports_of_ne_nil hne, himports, hbody, htarget]
    decide +kernel

end CompilationUnit
end JavaUnit
