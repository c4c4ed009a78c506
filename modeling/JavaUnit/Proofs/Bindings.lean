import JavaUnit.Proofs.Ownership
import JavaUnit.Proofs.Shadowing

/-!
# Where bindings come from

A step of a run leaves the scope alone or binds one free simple name.  That much `Scope.Step` says.
Here is which steps do the one and which the other.

There are two occasions on which a character asks for a simple name (`CompilationUnit.Claims`): it
ends a reference to a type that no other declared type shadows, or it opens the body of a member,
which is a declared type with nothing but type bodies around it.  If the name is free, it is bound
to the type, and if not, nothing happens.  All other characters leave every binding as it is.  To
ask for a spelling is like the first occasion.

`Draft.Claims` says the same of events.  `CompilationUnit.claims_iff` goes from events to
characters, and from the list of shadows in a draft to the history of the blocks.
-/

namespace JavaUnit

namespace Scope

variable {s t : Scope} {p q : TypeName}

/-! ## One more binding -/

/-- The scope `t` is `s` with the free simple name of `q` bound to `q`, and nothing else changed. -/
structure Binds (s : Scope) (q : TypeName) (t : Scope) : Prop where
  free : s.binding? q.simpleName = none
  bound : t.binding? q.simpleName = some ⟨q, false⟩
  others : ∀ simple, simple ≠ q.simpleName → t.binding? simple = s.binding? simple

/-- A type whose simple name is free binds it when it is declared. -/
theorem binds_declare (h : s.binding? q.simpleName = none) : s.Binds q (s.declare q).2 := by
  refine ⟨h, ?_, ?_⟩
  · rw [binding?_declare, h, if_pos rfl]
    rfl
  · intro simple hne
    rw [binding?_declare, if_neg (Ne.symm hne), Option.or_none]

/-- A type whose simple name is not free changes nothing when it is declared. -/
theorem declare_of_claimed (h : s.binding? q.simpleName ≠ none) : (s.declare q).2 = s := by
  rcases declare_cases s q with ⟨hfree, -⟩ | ⟨-, hdeclare⟩ | ⟨b, -, -, hdeclare⟩
  · exact absurd hfree h
  · rw [hdeclare]
  · rw [hdeclare]

theorem not_binds_self (s : Scope) (q : TypeName) : ¬s.Binds q s := by
  intro h
  have hbound := h.bound
  rw [h.free] at hbound
  exact absurd hbound (by simp)

/-- A step binds one type at most. -/
theorem Binds.eq (hp : s.Binds p t) (hq : s.Binds q t) : p = q := by
  by_cases hname : p.simpleName = q.simpleName
  · have hbound := hp.bound
    rw [hname, hq.bound] at hbound
    exact congrArg Binding.owner (Option.some.inj hbound).symm
  · have hbound := hp.bound
    rw [hq.others _ hname, hp.free] at hbound
    exact absurd hbound (by simp)

/-- Where a step declares the type that `P` holds of, and does nothing if there is none, it binds
exactly the types of `P` with a free simple name. -/
theorem binds_iff_of_declares {P : TypeName → Prop} (hdeclared : ∀ q, P q → t = (s.declare q).2)
    (hstill : (∀ q, ¬P q) → t = s) :
    (∀ q, s.Binds q t ↔ P q ∧ s.binding? q.simpleName = none) ∧
      ((∀ q, ¬s.Binds q t) → t = s) := by
  have hbinds (q : TypeName) (hq : P q) (hfree : s.binding? q.simpleName = none) :
      s.Binds q t := by
    rw [hdeclared q hq]
    exact binds_declare hfree
  have hself (hnone : ∀ q, P q → s.binding? q.simpleName ≠ none) : t = s := by
    by_cases hP : ∃ q, P q
    · obtain ⟨q, hq⟩ := hP
      rw [hdeclared q hq]
      exact declare_of_claimed (hnone q hq)
    · exact hstill fun q hq => hP ⟨q, hq⟩
  refine ⟨fun q => ⟨fun h => ?_, fun h => hbinds q h.1 h.2⟩, ?_⟩
  · by_cases hnone : ∀ p, P p → s.binding? p.simpleName ≠ none
    · rw [hself hnone] at h
      exact absurd h (not_binds_self s q)
    · push Not at hnone
      obtain ⟨p, hp, hfree⟩ := hnone
      obtain rfl := (hbinds p hp hfree).eq h
      exact ⟨hp, hfree⟩
  · intro hno
    exact hself fun q hq hfree => hno q (hbinds q hq hfree)

end Scope

namespace Lexer

variable {l : Lexer} {c : Char}

/-- Only an end mark ends a reference. -/
theorem eq_of_classify_eq_referenceEnd (h : (l.classify c).1 = .referenceEnd) :
    c = Reference.endMark := by
  unfold classify at h
  split at h
  · split at h
    · assumption
    · exact absurd h (by simp)
  · split at h
    · exact absurd h (by simp)
    · split at h
      · assumption
      · rcases l.state.read_cases c with ⟨hread, -⟩ | ⟨hread, -⟩ | ⟨region, hread⟩
        · exact absurd (hread.symm.trans h) (by simp)
        · exact absurd (hread.symm.trans h) (by simp)
        · exact absurd (hread.symm.trans h) (by simp)

/-- Only an opening brace opens a block. -/
theorem eq_of_classify_eq_blockOpen (h : (l.classify c).1 = .blockOpen) : c = '{' := by
  rcases l.classify_cases c with ⟨region, hevent⟩ | hevent | hevent | hevent
  · exact absurd (hevent.symm.trans h) (by simp)
  · exact absurd (hevent.symm.trans h) (by simp)
  · exact absurd (hevent.symm.trans h) (by simp)
  · rw [hevent] at h
    rcases l.state.read_cases c with ⟨-, hc⟩ | ⟨hread, -⟩ | ⟨region, hread⟩
    · exact hc
    · exact absurd (hread.symm.trans h) (by simp)
    · exact absurd (hread.symm.trans h) (by simp)

end Lexer

/-- A declared type other than `q` with the simple name of `q` shadows after these steps. -/
def BlockStep.Shadowed (history : List BlockStep) (q : TypeName) : Prop :=
  ∃ D, BlockStep.Shadowing history D ∧ D ≠ q ∧ D.simpleName = q.simpleName

namespace CompilationUnit

variable {u v : CompilationUnit} {history : List BlockStep} {c : Char} {q : TypeName}

/-! ## Characters that ask for a simple name -/

/-- The characters that ask for the simple name of a type, in a unit that has come from the start
with its blocks opened and closed as the history says. -/
inductive Claims (history : List BlockStep) (v : CompilationUnit) : Char → TypeName → Prop where
  /-- An end mark that completes a reference to a type which no other declared type shadows. -/
  | reference {m : Mention} (hmention : v.mention? Reference.endMark = some m)
      (hclear : ¬BlockStep.Shadowed history m.type) : Claims history v Reference.endMark m.type
  /-- A `{` in code that opens the body of a declared type, where all blocks that are open are type
  bodies. -/
  | member {D : TypeName} (hcode : (v.lexer.classify '{').1 = .blockOpen)
      (hbody : v.blockStep? '{' = some (.opened (.type D)))
      (hmember : ∀ block ∈ v.draft.blocks, block.kind.isType = true) : Claims history v '{' D

theorem isShadowed_eq_false_iff (h : Draft.Records history v.draft) (q : TypeName) :
    v.draft.isShadowed q = false ↔ ¬BlockStep.Shadowed history q := by
  rw [← Bool.not_eq_true, h.isShadowed_iff]
  rfl

/-- A unit that has failed opens no block. -/
theorem blockStep?_of_failed {offset : Nat} (h : v.draft.failedAt? = some offset) (c : Char) :
    v.blockStep? c = none := by
  refine Draft.blockStep?_of_blocks_eq ?_
  rw [state_append, Draft.handle_of_failed h]
  rfl

/-- A `{` in code opens the body of the type that the header before it declares. -/
theorem blockStep?_eq_opened_type_iff (hfailed : v.draft.failedAt? = none)
    (hcode : (v.lexer.classify c).1 = .blockOpen) :
    v.blockStep? c = some (.opened (.type q)) ↔
      ∃ simple, v.draft.header.openBlock.1 = some simple ∧ v.draft.declared simple = .ok q := by
  have hafter : (v.append c).state.draft = v.draft.openBlock := by
    rw [state_append, hcode, Draft.handle_of_taken hfailed rfl]
    rfl
  have hstep {kind : BlockKind} {d : Draft} (hd : v.draft.openBlock = d.push kind)
      (hblocks : d.blocks = v.draft.blocks) : v.blockStep? c = some (.opened kind) := by
    have hpushed : (v.append c).state.draft.blocks =
        ⟨kind, d.depth + 1⟩ :: v.draft.blocks := by
      rw [hafter, hd, ← hblocks]
      rfl
    exact Draft.blockStep?_of_cons hpushed
  constructor
  · intro hbody
    rcases v.draft.openBlock_cases with hopen | ⟨simple, p, hname, hp, hopen⟩
    · rw [hstep hopen rfl] at hbody
      exact absurd hbody (by simp)
    · rw [hstep hopen rfl] at hbody
      obtain rfl := BlockKind.type.inj (BlockStep.opened.inj (Option.some.inj hbody))
      exact ⟨simple, hname, hp⟩
  · rintro ⟨simple, hname, hq⟩
    exact hstep (Draft.openBlock_of_declared hname hq) rfl

/-- A character asks for a simple name if its event does, on a unit that has not failed. -/
theorem claims_iff (hrecords : Draft.Records history v.draft) :
    Claims history v c q ↔
      v.draft.failedAt? = none ∧ v.draft.Claims (v.lexer.classify c).1 q := by
  constructor
  · intro h
    cases h with
    | reference hmention hclear =>
        obtain ⟨hevent, hfailed, payload, region, hpayload, hparse, -⟩ :=
          mention?_eq_some_iff.1 hmention
        rw [hevent]
        exact ⟨hfailed,
          .reference hpayload hparse ((isShadowed_eq_false_iff hrecords _).2 hclear)⟩
    | member hcode hbody hmember =>
        have hfailed : v.draft.failedAt? = none := by
          by_contra hsome
          obtain ⟨offset, hoffset⟩ := Option.ne_none_iff_exists'.1 hsome
          rw [blockStep?_of_failed hoffset] at hbody
          exact absurd hbody (by simp)
        obtain ⟨simple, hname, hq⟩ := (blockStep?_eq_opened_type_iff hfailed hcode).1 hbody
        rw [hcode]
        exact ⟨hfailed, .member hname hq (List.all_eq_true.2 hmember)⟩
  · rintro ⟨hfailed, h⟩
    generalize hevent : (v.lexer.classify c).1 = event at h
    cases h with
    | reference hpayload hparse hclear =>
        obtain rfl := Lexer.eq_of_classify_eq_referenceEnd hevent
        exact .reference (m := ⟨v, q, (v.append Reference.endMark).state⟩)
          (mention?_eq_some_iff.2 ⟨hevent, hfailed, _, _, hpayload, hparse, rfl⟩)
          ((isShadowed_eq_false_iff hrecords q).1 hclear)
    | member hname hq hmember =>
        obtain rfl := Lexer.eq_of_classify_eq_blockOpen hevent
        exact .member hevent
          ((blockStep?_eq_opened_type_iff hfailed hevent).2 ⟨_, hname, hq⟩)
          (List.all_eq_true.1 hmember)

/-! ## The scope after a step -/

theorem scope_append_of_claims (hrecords : Draft.Records history v.draft)
    (h : Claims history v c q) : (v.append c).state.scope = (v.scope.declare q).2 := by
  obtain ⟨hfailed, hclaims⟩ := (claims_iff hrecords).1 h
  obtain ⟨failure, hstate⟩ := Draft.state_handle hfailed (v.lexer.classify c).1
  show (v.draft.handle (v.lexer.classify c).1).state.scope = _
  rw [hstate]
  exact Draft.scope_take_of_claims hclaims

theorem scope_append_of_not_claims (hrecords : Draft.Records history v.draft)
    (h : ∀ q, ¬Claims history v c q) : (v.append c).state.scope = v.scope := by
  show (v.draft.handle (v.lexer.classify c).1).state.scope = v.draft.scope
  cases hfailed : v.draft.failedAt? with
  | some offset =>
      rw [Draft.handle_of_failed hfailed]
      rfl
  | none =>
      obtain ⟨failure, hstate⟩ := Draft.state_handle hfailed (v.lexer.classify c).1
      rw [hstate]
      exact Draft.scope_take_of_not_claims fun q hq => h q ((claims_iff hrecords).2 ⟨hfailed, hq⟩)

variable {visible : Visibility} {target : TypeName} {companions : List TypeName}
  {features : Features}

/-- **Bindings come from references, from members and from spellings that are asked for.**  At
every point of a run, a character binds a type if it claims the simple name for it and the name is
free; otherwise it leaves the scope as it is.  A spelling that is asked for binds the type if no
other declared type shadows it and its simple name is free, and leaves the scope as it is
otherwise.  So no text binds anything, whatever region it stands in, and neither does a `{` with a
block of code around it. -/
theorem Reaches.binds_iff (hstart : start visible target companions features = .ok u)
    (h : Reaches u history v) :
    (∀ c, (∀ q, v.scope.Binds q (v.append c).state.scope ↔
          Claims history v c q ∧ v.scope.binding? q.simpleName = none) ∧
        ((∀ q, ¬v.scope.Binds q (v.append c).state.scope) →
          (v.append c).state.scope = v.scope)) ∧
      (∀ q, (∀ r, v.scope.Binds r (v.spell q).2.scope ↔
          (r = q ∧ ¬BlockStep.Shadowed history q) ∧ v.scope.binding? r.simpleName = none) ∧
        ((∀ r, ¬v.scope.Binds r (v.spell q).2.scope) → (v.spell q).2.scope = v.scope)) ∧
      (∀ c region, (v.lexer.classify c).1 = .text c region →
        (v.append c).state.scope = v.scope) ∧
      ∀ block ∈ v.draft.blocks, block.kind = .code → (v.append '{').state.scope = v.scope := by
  have hrecords := h.records (records_of_start hstart)
  refine ⟨fun c => ?_, fun q => ?_, ?_, ?_⟩
  · exact Scope.binds_iff_of_declares (fun q hq => scope_append_of_claims hrecords hq)
      (scope_append_of_not_claims hrecords)
  · refine Scope.binds_iff_of_declares ?_ ?_
    · rintro r ⟨rfl, hclear⟩
      rw [spell_of_isShadowed_eq_false ((isShadowed_eq_false_iff hrecords r).2 hclear)]
      exact v.scope.spell_snd r
    · intro hnone
      have hshadowed : v.draft.isShadowed q = true := by
        refine Bool.of_not_eq_false fun hclear => ?_
        exact hnone q ⟨rfl, (isShadowed_eq_false_iff hrecords q).1 hclear⟩
      rw [spell_of_isShadowed hshadowed]
  · intro c region htext
    refine scope_append_of_not_claims hrecords fun q hq => ?_
    have hclaims := ((claims_iff hrecords).1 hq).2
    rw [htext] at hclaims
    cases hclaims
  · intro block hmem hcode
    refine scope_append_of_not_claims hrecords fun q hq => ?_
    cases hq with
    | member _ _ hmember =>
        have htype := hmember block hmem
        rw [hcode] at htype
        exact absurd htype (by decide)

/-- The body of a member binds its name.  A class in a method has a body of its own as well, and
binds nothing. -/
theorem Reaches.binds_iff_inner :
    ∃ u v w history history',
      start Visibility.nothing ⟨["com", "example"], ["Widget"]⟩ [] .empty = .ok u ∧
      Reaches u history v ∧ Reaches u history' w ∧
      v.text = preamble ⟨["com", "example"], ["Widget"]⟩ ++ "class Widget\x7bclass Inner" ∧
      w.text =
        preamble ⟨["com", "example"], ["Widget"]⟩ ++ "class Widget\x7bvoid f()\x7bclass Inner" ∧
      v.scope.Binds ⟨["com", "example"], ["Widget", "Inner"]⟩ (v.append '{').state.scope ∧
      w.blockStep? '{' = some (.opened (.type ⟨["com", "example"], ["Widget", "Inner"]⟩)) ∧
      (w.append '{').state.scope = w.scope := by
  have hstart := start_nothing ⟨["com", "example"], ["Widget"]⟩ .empty (by decide)
  let u := fresh ⟨["com", "example"], ["Widget"]⟩ .empty
    (Scope.empty.claim ⟨["com", "example"], ["Widget"]⟩ true)
  obtain ⟨history, hmember⟩ :=
    Reaches.refl (u := u).appendList "class Widget\x7bclass Inner".toList
  obtain ⟨history', hlocal⟩ :=
    Reaches.refl (u := u).appendList "class Widget\x7bvoid f()\x7bclass Inner".toList
  obtain ⟨hcharacters, -⟩ := hmember.binds_iff hstart
  obtain ⟨-, -, -, hcode⟩ := hlocal.binds_iff hstart
  refine ⟨u, _, _, _, _, hstart, hmember, hlocal, ?_, ?_, ?_, ?_, ?_⟩
  · decide +kernel
  · decide +kernel
  · refine ((hcharacters '{').1 _).2 ⟨.member ?_ ?_ ?_, ?_⟩
    · decide +kernel
    · decide +kernel
    · decide +kernel
    · decide +kernel
  · decide +kernel
  · exact hcode ⟨.code, 2⟩ (by decide +kernel) rfl

end CompilationUnit
end JavaUnit
