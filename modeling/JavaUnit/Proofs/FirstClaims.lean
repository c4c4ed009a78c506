import JavaUnit.Command.Basic
import JavaUnit.Proofs.Enclosures
import JavaUnit.Proofs.ImportList
import JavaUnit.Proofs.Shadowing

/-!
# The first claim decides

As long as no type is declared, a simple name goes to whoever had it at the start, and else to the
first type that is mentioned and has it.  `Scope.claimant?` tells which type that is from the list
of the types to be mentioned, before any of them is.  The owner is spelled by the name and everybody
else in full (`Scope.spellingAmong`).

Two ways to mention the types of a list are compared here.  To ask for their spellings is a walk
along the scope (`spellAll_eq_map`).  To stream references to them, with spaces between, goes
through the lexer, the payload and the header besides, and none of these has a say in the matter:
in code between two references the next reference is spelled by the scope, and a space leaves the
scope alone (`Ready.appendType`, `Ready.append_space`).  So the spellings that `shorten` prints are
those that a unit writes.
-/

namespace JavaUnit

namespace Scope

variable {s : Scope} {q : TypeName} {names : List TypeName}

/-! ## First claims -/

/-- The type that a simple name stands for once the types of the list are mentioned in their order:
the one that it stands for already, else the first of the list that has it. -/
def claimant? (s : Scope) (names : List TypeName) (simple : String) : Option TypeName :=
  ((s.binding? simple).map (·.owner)).or (names.find? (·.simpleName == simple))

/-- The spelling of `q` where the types of the list are mentioned in their order. -/
def spellingAmong (s : Scope) (names : List TypeName) (q : TypeName) : String :=
  if s.claimant? names q.simpleName = some q then q.simpleName else q.dotted

/-- The first of the list may as well be declared first. -/
theorem claimant?_cons (s : Scope) (q : TypeName) (names : List TypeName) (simple : String) :
    s.claimant? (q :: names) simple = (s.declare q).2.claimant? names simple := by
  rw [claimant?, claimant?, binding?_declare]
  cases hb : s.binding? simple with
  | some b => rfl
  | none =>
      by_cases hname : q.simpleName = simple
      · simp [hname]
      · simp [hname]

/-- The first of the list is spelled as it is without the others. -/
theorem spellingAmong_head (s : Scope) (q : TypeName) (names : List TypeName) :
    s.spellingAmong (q :: names) q = (s.spell q).1 := by
  rw [spellingAmong, claimant?]
  rcases declare_cases s q with ⟨hfree, h⟩ | ⟨⟨b, hb, howner⟩, h⟩ | ⟨b, hb, hother, h⟩
  · simp [spell, h, hfree]
  · simp [spell, h, hb, howner]
  · simp [spell, h, hb, hother]

/-- The spellings of a list, the first of them first and the others from there. -/
theorem map_spellingAmong_cons (s : Scope) (q : TypeName) (names : List TypeName) :
    (q :: names).map (s.spellingAmong (q :: names)) =
      (s.spell q).1 :: names.map ((s.declare q).2.spellingAmong names) := by
  rw [List.map_cons, spellingAmong_head]
  congr 2
  funext p
  rw [spellingAmong, spellingAmong, claimant?_cons]

theorem declareAll_cons (s : Scope) (q : TypeName) (names : List TypeName) :
    s.declareAll (q :: names) = (s.declare q).2.declareAll names := rfl

/-- A valid name is spelled by its simple name if it owns the name, or if the dotted name is no
longer than that. -/
theorem spellingAmong_eq_simpleName_iff (hq : q.Valid) :
    s.spellingAmong names q = q.simpleName ↔
      s.claimant? names q.simpleName = some q ∨ q = ⟨[], [q.simpleName]⟩ := by
  unfold spellingAmong
  split
  · rename_i howns
    exact ⟨fun _ => .inl howns, fun _ => rfl⟩
  · rename_i hother
    constructor
    · intro hdotted
      have hident : isIdentifier q.dotted = true := by
        rw [hdotted]
        exact hq.isIdentifier_simpleName
      have htype := hq.eq_of_isIdentifier_dotted hident
      rw [hdotted] at htype
      exact .inr htype
    · rintro (howns | htype)
      · exact absurd howns hother
      · rw [htype]
        exact Text.dotted_singleton _

end Scope

/-- References to the types of the list, with a space between any two of them. -/
def Reference.spaced (names : List TypeName) : String :=
  " ".intercalate (names.map encode)

namespace CompilationUnit

variable {u v : CompilationUnit} {q : TypeName} {names : List TypeName}

/-! ## Asking for spellings -/

theorem isShadowed_of_shadows_eq_nil (h : u.draft.shadows = []) (q : TypeName) :
    u.draft.isShadowed q = false := by
  simp [Draft.isShadowed, h]

/-- Where no type is declared, to ask for a spelling is to declare the type. -/
theorem spell_of_shadows_eq_nil (h : u.draft.shadows = []) (q : TypeName) :
    u.spell q = ((u.scope.spell q).1,
      { u with draft := { u.draft with scope := (u.scope.declare q).2 } }) := by
  rw [spell_of_isShadowed_eq_false (isShadowed_of_shadows_eq_nil h q), Scope.spell_snd]

theorem spellAll_eq_map (h : u.draft.shadows = []) (names : List TypeName) :
    u.spellAll names = names.map (u.scope.spellingAmong names) := by
  induction names generalizing u with
  | nil => rfl
  | cons q names ih =>
      rw [spellAll, spell_of_shadows_eq_nil h, Scope.map_spellingAmong_cons]
      exact congrArg ((u.scope.spell q).1 :: ·) (ih h)

theorem scope_editAll_spell (h : u.draft.shadows = []) (names : List TypeName) :
    (u.editAll (names.map .spell)).scope = u.scope.declareAll names := by
  induction names generalizing u with
  | nil => rfl
  | cons q names ih =>
      have hstep : u.editAll ((q :: names).map .spell) =
          (u.spell q).2.editAll (names.map .spell) := rfl
      rw [hstep, spell_of_shadows_eq_nil h, Scope.declareAll_cons]
      exact ih h

/-! ## Streaming references -/

/-- The unit stands in code with no reference begun, and no declared type is visible. -/
structure Ready (u : CompilationUnit) : Prop where
  atRest : u.AtRest
  normal : u.lexer.state = .normal
  shadows : u.draft.shadows = []

/-- A reference is written as the scope spells it, and declares its type. -/
theorem Ready.appendType (h : u.Ready) (hq : q.Valid) :
    ∃ v, u.appendType q = .ok v ∧ v.Ready ∧ v.text = u.text ++ (u.scope.spell q).1 ∧
      v.scope = (u.scope.declare q).2 := by
  have hspelling : u.draft.spelling q = u.scope.spell q := by
    rw [Draft.spelling, isShadowed_of_shadows_eq_nil h.shadows]
    rfl
  refine ⟨_, h.atRest.appendType_eq hq, ⟨⟨rfl, rfl, h.atRest.noFailure⟩, ?_, h.shadows⟩, ?_, ?_⟩
  · show u.lexer.state.settle = .normal
    rw [h.normal]
    rfl
  · show u.text ++ (u.draft.spelling q).1 = _
    rw [hspelling]
  · show (u.draft.spelling q).2 = _
    rw [hspelling, Scope.spell_snd]

/-- A space between two references is written and changes nothing else that counts. -/
theorem Ready.append_space (h : u.Ready) :
    ∃ v, u.appendText " " = .ok v ∧ v.Ready ∧ v.text = u.text ++ " " ∧ v.scope = u.scope := by
  have hread : u.lexer.state.read ' ' = (.text ' ' .code, .normal) := by
    rw [h.normal]
    rfl
  refine ⟨_, h.atRest.append_text (by decide) hread, ⟨h.atRest.written _ _ _, rfl, h.shadows⟩,
    rfl, rfl⟩

theorem appendText_append {s : String} (h : u.appendText s = .ok v) (t : String) :
    u.appendText (s ++ t) = v.appendText t := by
  have hs : u.appendList s.toList = .ok v := h
  rw [appendText, String.toList_append, appendList_append, hs]
  rfl

/-- **References in a row, with spaces between them**, are written as the first claims have it,
and leave the scope with their types declared in turn. -/
theorem Ready.appendText_spaced (h : u.Ready) (hvalid : ∀ q ∈ names, q.Valid) :
    ∃ v, u.appendText (Reference.spaced names) = .ok v ∧
      v.text = u.text ++ " ".intercalate (names.map (u.scope.spellingAmong names)) ∧
      v.scope = u.scope.declareAll names := by
  induction names generalizing u with
  | nil => exact ⟨u, rfl, by simp, rfl⟩
  | cons q names ih =>
      obtain ⟨v, hv, hready, htext, hscope⟩ := h.appendType (hvalid q List.mem_cons_self)
      cases names with
      | nil =>
          refine ⟨v, ?_, ?_, hscope⟩
          · rw [Reference.spaced, List.map_singleton, String.intercalate_singleton]
            exact hv
          · rw [htext, Scope.map_spellingAmong_cons, List.map_nil, String.intercalate_singleton]
      | cons p names =>
          obtain ⟨w, hw, hready, hspace, hsame⟩ := hready.append_space
          obtain ⟨x, hx, hrest, hdeclared⟩ :=
            ih hready fun r hr => hvalid r (List.mem_cons_of_mem _ hr)
          rw [hsame, hscope] at hrest hdeclared
          refine ⟨x, ?_, ?_, hdeclared⟩
          · rw [Reference.spaced, List.map_cons, List.map_cons, String.intercalate_cons_cons,
              String.append_assoc, appendText_append hv, appendText_append hw]
            exact hx
          · rw [hrest, hspace, htext, Scope.map_spellingAmong_cons u.scope q, List.map_cons,
              String.intercalate_cons_cons]
            simp only [String.append_assoc]

variable {visible : Visibility} {target : TypeName} {companions : List TypeName}
  {features : Features}

theorem ready_of_start (h : start visible target companions features = .ok u) : u.Ready := by
  have hrest := atRest_of_start h
  obtain ⟨-, scope, -, rfl⟩ := start_eq_ok_iff.1 h
  exact ⟨hrest, rfl, rfl⟩

end CompilationUnit

open CompilationUnit

/-- **What `shorten` prints is what a unit writes, and the first claim decides.**  If the unit can
be started, the spellings of valid names are their simple names where they own them and their dotted
names elsewhere; the owner is the type that the fresh unit has for the simple name, else the first
of the list that has it.  The two spellings of a type are the same text if it is a top-level type of
the default package, and only then.  References to the same types, streamed to the fresh unit with
spaces between them, are taken, are written with these very spellings, and leave the scope and the
imports as asking for the spellings does. -/
theorem UnitSpec.shorten_foretells {spec : UnitSpec} {u : CompilationUnit} {names : List TypeName}
    (hstart : spec.start = .ok u) (hvalid : ∀ q ∈ names, q.Valid) :
    ∃ (spellings : List String) (v : CompilationUnit), spec.shorten names = .ok spellings ∧
      spellings = names.map (fun q =>
        if u.scope.claimant? names q.simpleName = some q then q.simpleName else q.dotted) ∧
      (∀ (i : Nat) (q : TypeName), names[i]? = some q →
        (spellings[i]? = some q.simpleName ↔
          u.scope.claimant? names q.simpleName = some q ∨ q = ⟨[], [q.simpleName]⟩)) ∧
      u.appendText (Reference.spaced names) = .ok v ∧
      v.text = u.text ++ " ".intercalate spellings ∧
      v.scope = (u.editAll (names.map .spell)).scope ∧
      v.imports = (u.editAll (names.map .spell)).imports := by
  have hready := ready_of_start hstart
  obtain ⟨v, hv, htext, hscope⟩ := hready.appendText_spaced hvalid
  rw [← scope_editAll_spell hready.shadows] at hscope
  obtain ⟨history, hasked⟩ := Reaches.refl (u := u).editAll (names.map .spell)
  have htarget : v.target = (u.editAll (names.map .spell)).target := by
    have hstate : v = (u.appendText (Reference.spaced names)).state := by
      rw [hv]
      rfl
    rw [hstate, hasked.target_eq, appendText, target_appendList]
  refine ⟨names.map (u.scope.spellingAmong names), v, ?_, rfl, ?_, hv, htext, hscope,
    imports_congr hscope htarget⟩
  · rw [UnitSpec.shorten, hstart, ← spellAll_eq_map hready.shadows]
    rfl
  · intro i q hq
    rw [List.getElem?_map, hq, Option.map_some, Option.some_inj]
    exact Scope.spellingAmong_eq_simpleName_iff (hvalid q (List.mem_of_getElem? hq))

/-- Of two lists the first to come gets the name and keeps it, and a namesake of the target is
spelled in full. -/
theorem UnitSpec.shorten_foretells_namesakes :
    ∃ u v, UnitSpec.start { target := ⟨["com", "example"], ["Widget"]⟩ } = .ok u ∧
      UnitSpec.shorten { target := ⟨["com", "example"], ["Widget"]⟩ }
          [⟨["java", "awt"], ["List"]⟩, ⟨["java", "util"], ["List"]⟩, ⟨["org", "acme"], ["Widget"]⟩,
            ⟨["java", "awt"], ["List"]⟩] =
        .ok ["List", "java.util.List", "org.acme.Widget", "List"] ∧
      u.appendText (Reference.spaced [⟨["java", "awt"], ["List"]⟩, ⟨["java", "util"], ["List"]⟩,
          ⟨["org", "acme"], ["Widget"]⟩, ⟨["java", "awt"], ["List"]⟩]) = .ok v ∧
      v.text = u.text ++ "List java.util.List org.acme.Widget List" := by
  have hstart : UnitSpec.start { target := ⟨["com", "example"], ["Widget"]⟩ } =
      .ok (fresh ⟨["com", "example"], ["Widget"]⟩ .empty
        (Scope.empty.claim ⟨["com", "example"], ["Widget"]⟩ true)) :=
    start_nothing ⟨["com", "example"], ["Widget"]⟩ .empty (by decide)
  let names : List TypeName := [⟨["java", "awt"], ["List"]⟩, ⟨["java", "util"], ["List"]⟩,
    ⟨["org", "acme"], ["Widget"]⟩, ⟨["java", "awt"], ["List"]⟩]
  have hvalid : ∀ q ∈ names, q.Valid := by decide +kernel
  obtain ⟨spellings, v, hshorten, hspellings, -, hv, htext, -, -⟩ :=
    UnitSpec.shorten_foretells hstart hvalid
  have hread : spellings = ["List", "java.util.List", "org.acme.Widget", "List"] := by
    rw [hspellings]
    decide +kernel
  rw [hread] at hshorten htext
  refine ⟨_, v, hstart, hshorten, hv, ?_⟩
  rw [htext]
  congr 1

/-- A type of the default package is spelled by its simple name where the name is not its own. -/
theorem UnitSpec.shorten_defaultPackage :
    ∃ u, UnitSpec.start { target := ⟨["com", "example"], ["Widget"]⟩ } = .ok u ∧
      (∀ q ∈ [⟨["java", "util"], ["List"]⟩, (⟨[], ["List"]⟩ : TypeName)], q.Valid) ∧
      UnitSpec.shorten { target := ⟨["com", "example"], ["Widget"]⟩ }
        [⟨["java", "util"], ["List"]⟩, ⟨[], ["List"]⟩] = .ok ["List", "List"] ∧
      (⟨[], ["List"]⟩ : TypeName).simpleName = "List" ∧
      u.scope.claimant? [⟨["java", "util"], ["List"]⟩, ⟨[], ["List"]⟩] "List" ≠
        some ⟨[], ["List"]⟩ := by
  have hstart : UnitSpec.start { target := ⟨["com", "example"], ["Widget"]⟩ } =
      .ok (fresh ⟨["com", "example"], ["Widget"]⟩ .empty
        (Scope.empty.claim ⟨["com", "example"], ["Widget"]⟩ true)) :=
    start_nothing ⟨["com", "example"], ["Widget"]⟩ .empty (by decide)
  refine ⟨_, hstart, ?_⟩
  decide +kernel

end JavaUnit
