import JavaUnit.Proofs.EditStream
import JavaUnit.Proofs.Lexing
import JavaUnit.Proofs.NameText
import JavaUnit.Proofs.Spelling
import JavaUnit.Proofs.Starting

/-!
# One simple name, one type

In the course of a run types are mentioned: a reference in the stream comes to its end, or a
spelling is asked for.  A `Mention` keeps the unit before it and the unit after it, and
`CompilationUnit.mentions` collects the mentions of a run in their order, whatever the edits
are and whether they succeed.

All that has to be known of the order is that the scope grows along it
(`pairwise_mentions`).  A type mentioned by its simple name owns the name afterwards, and what
is owned stays owned.  So of two types with one simple name at most one is ever mentioned by
it, and which of the two mentions came first does not matter (`mentions_comparable`).
-/

namespace JavaUnit

/-- A name of a type in a named package. -/
def TypeName.InNamedPackage (q : TypeName) : Prop :=
  q.package ≠ [] ∧ q.path ≠ []

instance (q : TypeName) : Decidable q.InNamedPackage :=
  inferInstanceAs (Decidable (_ ∧ _))

/-- A place in a run where a type is spelled. -/
structure Mention where
  before : CompilationUnit
  type : TypeName
  after : CompilationUnit

/-- How the type is spelled there. -/
def Mention.spelling (m : Mention) : String :=
  (m.before.spell m.type).1

namespace CompilationUnit

/-! ## Scopes in a run -/

theorem grows_edit (u : CompilationUnit) (e : Edit) : u.scope.Grows (u.edit e).state.scope := by
  rcases u.edit_cases e with ⟨q, rfl⟩ | h
  · exact u.grows_spell q
  · rw [h]
    exact u.grows_appendList e.stream

theorem grows_editAll (u : CompilationUnit) (edits : List Edit) :
    u.scope.Grows (u.editAll edits).scope := by
  induction edits generalizing u with
  | nil => exact Scope.Grows.refl _
  | cons e edits ih => exact (u.grows_edit e).trans (ih _)

/-! ## The mentions of a run -/

/-- The mention that the character completes, if it ends a reference to a type. -/
def mention? (u : CompilationUnit) (c : Char) : Option Mention :=
  match (u.lexer.classify c).1, u.draft.failedAt?, u.draft.reference? with
  | .referenceEnd, none, some (payload, _) =>
      match TypeName.parse payload with
      | .ok q => some ⟨u, q, (u.append c).state⟩
      | .error _ => none
  | _, _, _ => none

/-- The mentions in a stream, up to the character that fails. -/
def mentionsIn (u : CompilationUnit) : List Char → List Mention
  | [] => []
  | c :: rest =>
      (u.mention? c).toList ++
        match (u.append c).error? with
        | none => (u.append c).state.mentionsIn rest
        | some _ => []

/-- The mentions in an edit. -/
def mentionsOf (u : CompilationUnit) : Edit → List Mention
  | .spell q => [⟨u, q, (u.spell q).2⟩]
  | e => u.mentionsIn e.stream

/-- The mentions in a run. -/
def mentions (u : CompilationUnit) : List Edit → List Mention
  | [] => []
  | e :: edits => u.mentionsOf e ++ (u.edit e).state.mentions edits

variable {u : CompilationUnit} {m : Mention}

/-- A character completes a mention if it ends a reference that names a type, on a unit that has not
failed. -/
theorem mention?_eq_some_iff {c : Char} :
    u.mention? c = some m ↔
      (u.lexer.classify c).1 = .referenceEnd ∧ u.draft.failedAt? = none ∧
        ∃ payload region, u.draft.reference? = some (payload, region) ∧
          TypeName.parse payload = .ok m.type ∧ m = ⟨u, m.type, (u.append c).state⟩ := by
  constructor
  · intro h
    unfold mention? at h
    split at h
    · rename_i payload region hevent hfailed hpayload
      split at h
      · rename_i q hparse
        obtain rfl := Option.some.inj h
        exact ⟨hevent, hfailed, payload, region, hpayload, hparse, rfl⟩
      · exact absurd h (by simp)
    · exact absurd h (by simp)
  · rintro ⟨hevent, hfailed, payload, region, hpayload, hparse, hm⟩
    simp only [mention?, hevent, hfailed, hpayload, hparse]
    exact congrArg some hm.symm

/-- A reference that comes to its end is replaced by its spelling, as of the unit before. -/
theorem append_of_mention? {c : Char} (h : u.mention? c = some m) :
    m.before = u ∧ m.after = (u.append c).state ∧
      (u.append c).state.text = u.text ++ m.spelling ∧
      (u.append c).state.scope = (u.spell m.type).2.scope := by
  obtain ⟨hevent, hfailed, payload, region, hpayload, hparse, hm⟩ := mention?_eq_some_iff.1 h
  have htaken := Draft.endReference_of_parse hpayload hparse
  have hhandle := Draft.handle_eq_ok hfailed
    (show u.draft.take .referenceEnd = _ from htaken)
  have hbefore : m.before = u := congrArg Mention.before hm
  have hafter : m.after = (u.append c).state := congrArg Mention.after hm
  refine ⟨hbefore, hafter, ?_, ?_⟩
  · show (u.draft.handle (u.lexer.classify c).1).state.text = _
    rw [hevent, hhandle, Mention.spelling, hbefore]
    rfl
  · show (u.draft.handle (u.lexer.classify c).1).state.scope = _
    rw [hevent, hhandle]
    rfl

/-- A character that completes no mention writes itself or nothing, so the spellings in the text
of a unit are those of its mentions. -/
theorem text_append_of_mention?_eq_none {c : Char} (h : u.mention? c = none) :
    (u.append c).state.text = u.text.push c ∨ (u.append c).state.text = u.text := by
  have htext : (u.append c).state.text = (u.draft.handle (u.lexer.classify c).1).state.text := rfl
  rw [htext]
  cases hfailed : u.draft.failedAt? with
  | some offset =>
      rw [Draft.handle_of_failed hfailed]
      exact .inr rfl
  | none =>
      obtain ⟨failure, hstate⟩ := Draft.state_handle hfailed (u.lexer.classify c).1
      rw [hstate]
      show (u.draft.take (u.lexer.classify c).1).state.text = _ ∨
        (u.draft.take (u.lexer.classify c).1).state.text = _
      rcases u.lexer.classify_cases c with ⟨region, hevent⟩ | hevent | hevent | hevent
      · rw [hevent]
        exact .inr rfl
      · rw [hevent]
        show (u.draft.readReference c).text = _ ∨ (u.draft.readReference c).text = _
        unfold Draft.readReference
        split
        · exact .inr rfl
        · exact .inl rfl
      · rw [hevent]
        cases hpayload : u.draft.reference? with
        | none =>
            rw [show u.draft.take .referenceEnd = _ from Draft.endReference_of_none hpayload]
            exact .inr rfl
        | some reference =>
            obtain ⟨payload, region⟩ := reference
            cases hparse : TypeName.parse payload with
            | error cause =>
                rw [show u.draft.take .referenceEnd = _ from
                  Draft.endReference_of_parse_error hpayload hparse]
                exact .inr rfl
            | ok q =>
                simp only [mention?, hevent, hfailed, hpayload, hparse] at h
                exact absurd h (by simp)
      · rcases u.lexer.state.read_cases c with ⟨hread, rfl⟩ | ⟨hread, rfl⟩ | ⟨region, hread⟩
        · rw [hevent, hread]
          exact .inl (Draft.text_openBlock u.draft)
        · rw [hevent, hread]
          exact .inl (Draft.text_closeBlock u.draft)
        · rw [hevent, hread]
          exact .inl rfl

/-- A mention between a unit and a later one: the scope grows up to it, by it and from it. -/
structure Within (u : CompilationUnit) (m : Mention) (v : CompilationUnit) : Prop where
  upTo : u.scope.Grows m.before.scope
  spelled : m.after.scope = (m.before.spell m.type).2.scope
  onward : m.after.scope.Grows v.scope

theorem Within.mono {t u v w : CompilationUnit} (h : Within u m v) (htu : t.scope.Grows u.scope)
    (hvw : v.scope.Grows w.scope) : Within t m w :=
  ⟨htu.trans h.upTo, h.spelled, h.onward.trans hvw⟩

theorem within_of_mention? {c : Char} (h : u.mention? c = some m) :
    Within u m (u.append c).state := by
  obtain ⟨hbefore, hafter, -, hscope⟩ := append_of_mention? h
  refine ⟨?_, ?_, ?_⟩
  · rw [hbefore]
    exact Scope.Grows.refl _
  · rw [hafter, hbefore, hscope]
  · rw [hafter]
    exact Scope.Grows.refl _

/-- What is mentioned in a stream is completed by the first character, or it is mentioned in the
rest and the first character has not failed. -/
theorem mem_mentionsIn_cons {c : Char} {cs : List Char} :
    m ∈ u.mentionsIn (c :: cs) ↔
      u.mention? c = some m ∨
        (u.append c).error? = none ∧ m ∈ (u.append c).state.mentionsIn cs := by
  rw [mentionsIn, List.mem_append, Option.mem_toList]
  cases (u.append c).error? <;> simp

theorem within_mentionsIn {cs : List Char} (h : m ∈ u.mentionsIn cs) :
    Within u m (u.appendList cs).state := by
  induction cs generalizing u with
  | nil => exact absurd h (by simp [mentionsIn])
  | cons c cs ih =>
      rw [appendList_cons]
      rcases mem_mentionsIn_cons.1 h with hfirst | ⟨herror, hrest⟩
      · refine (within_of_mention? hfirst).mono (Scope.Grows.refl _) ?_
        cases herror : (u.append c).error? with
        | none =>
            rw [Outcome.andThen_of_ok herror]
            exact grows_appendList _ cs
        | some e =>
            rw [Outcome.andThen_of_error herror]
            exact Scope.Grows.refl _
      · rw [Outcome.andThen_of_ok herror]
        exact (ih hrest).mono (u.grows_append c) (Scope.Grows.refl _)

/-- What is mentioned in the first part of a stream is mentioned in the stream. -/
theorem mem_mentionsIn_of_prefix {cs ds : List Char} (hpart : cs <+: ds)
    (h : m ∈ u.mentionsIn cs) : m ∈ u.mentionsIn ds := by
  induction cs generalizing u ds with
  | nil => exact absurd h (by simp [mentionsIn])
  | cons c cs ih =>
      obtain ⟨ds, rfl, hlater⟩ := List.cons_prefix_iff.1 hpart
      rcases mem_mentionsIn_cons.1 h with hfirst | ⟨herror, hrest⟩
      · exact mem_mentionsIn_cons.2 (.inl hfirst)
      · exact mem_mentionsIn_cons.2 (.inr ⟨herror, ih hlater hrest⟩)

/-- Two mentions in a stream: the scope grows from the one to the other. -/
theorem pairwise_mentionsIn (u : CompilationUnit) (cs : List Char) :
    (u.mentionsIn cs).Pairwise fun m n => m.after.scope.Grows n.before.scope := by
  induction cs generalizing u with
  | nil => exact List.Pairwise.nil
  | cons c cs ih =>
      rw [mentionsIn, List.pairwise_append]
      have hfirst : (u.mention? c).toList.Pairwise
          fun m n => m.after.scope.Grows n.before.scope := by
        cases u.mention? c with
        | none => exact List.Pairwise.nil
        | some m => exact List.pairwise_singleton _ m
      cases herror : (u.append c).error? with
      | none =>
          refine ⟨hfirst, ih _, fun m hm n hn => ?_⟩
          have hm := within_of_mention? (Option.mem_toList.1 hm)
          exact hm.onward.trans (within_mentionsIn hn).upTo
      | some e => exact ⟨hfirst, List.Pairwise.nil, fun m _ n hn => absurd hn (by simp)⟩

theorem mentionsOf_spell (u : CompilationUnit) (q : TypeName) :
    u.mentionsOf (.spell q) = [⟨u, q, (u.spell q).2⟩] := rfl

/-- An edit that is no question mentions what its characters mention. -/
theorem mentionsOf_cases (u : CompilationUnit) (e : Edit) :
    (∃ q, e = .spell q) ∨
      (u.mentionsOf e = u.mentionsIn e.stream ∧
        (u.edit e).state = (u.appendList e.stream).state) := by
  rcases u.edit_cases e with hspell | hstate
  · exact .inl hspell
  · cases e with
    | spell q => exact .inl ⟨q, rfl⟩
    | char c => exact .inr ⟨rfl, hstate⟩
    | text s => exact .inr ⟨rfl, hstate⟩
    | type q => exact .inr ⟨rfl, hstate⟩
    | add template arguments => exact .inr ⟨rfl, hstate⟩
    | addLine template arguments => exact .inr ⟨rfl, hstate⟩
    | render template => exact .inr ⟨rfl, hstate⟩

theorem within_mentionsOf {e : Edit} (h : m ∈ u.mentionsOf e) : Within u m (u.edit e).state := by
  rcases u.mentionsOf_cases e with ⟨q, rfl⟩ | ⟨hmentions, hstate⟩
  · rw [mentionsOf_spell, List.mem_singleton] at h
    rw [h]
    exact ⟨Scope.Grows.refl _, rfl, Scope.Grows.refl _⟩
  · rw [hmentions] at h
    rw [hstate]
    exact within_mentionsIn h

theorem pairwise_mentionsOf (u : CompilationUnit) (e : Edit) :
    (u.mentionsOf e).Pairwise fun m n => m.after.scope.Grows n.before.scope := by
  rcases u.mentionsOf_cases e with ⟨q, rfl⟩ | ⟨hmentions, -⟩
  · exact List.pairwise_singleton _ _
  · rw [hmentions]
    exact u.pairwise_mentionsIn e.stream

theorem within_mentions {edits : List Edit} (h : m ∈ u.mentions edits) :
    Within u m (u.editAll edits) := by
  induction edits generalizing u with
  | nil => exact absurd h (by simp [mentions])
  | cons e edits ih =>
      rw [mentions, List.mem_append] at h
      show Within u m ((u.edit e).state.editAll edits)
      rcases h with h | h
      · exact (within_mentionsOf h).mono (Scope.Grows.refl _) (grows_editAll _ edits)
      · exact (ih h).mono (u.grows_edit e) (Scope.Grows.refl _)

/-- Two mentions in a run: the scope grows from the one to the other. -/
theorem pairwise_mentions (u : CompilationUnit) (edits : List Edit) :
    (u.mentions edits).Pairwise fun m n => m.after.scope.Grows n.before.scope := by
  induction edits generalizing u with
  | nil => exact List.Pairwise.nil
  | cons e edits ih =>
      rw [mentions, List.pairwise_append]
      refine ⟨u.pairwise_mentionsOf e, ih _, fun m hm n hn => ?_⟩
      exact (within_mentionsOf hm).onward.trans (within_mentions hn).upTo

/-- Of two mentions in a run one comes before the other, or they are the same. -/
theorem mentions_comparable {edits : List Edit} {n : Mention} (hm : m ∈ u.mentions edits)
    (hn : n ∈ u.mentions edits) :
    m = n ∨ m.after.scope.Grows n.before.scope ∨ n.after.scope.Grows m.before.scope := by
  have hpairs := u.pairwise_mentions edits
  refine List.Pairwise.forall_of_forall_of_flip
    (R := fun m n : Mention =>
      m = n ∨ m.after.scope.Grows n.before.scope ∨ n.after.scope.Grows m.before.scope)
    (fun _ _ => .inl rfl) ?_ ?_ hm hn
  · exact hpairs.imp fun h => .inr (.inl h)
  · exact hpairs.imp fun h => .inr (.inr h)

/-! ## Mentions by a simple name -/

/-- A mention is by the simple name, which stands for the type afterwards and which no other
declared type has, or it is in full. -/
theorem Within.spelling_cases {v : CompilationUnit} (h : Within u m v) :
    (m.before.draft.isShadowed m.type = false ∧ m.spelling = m.type.simpleName ∧
        m.after.scope.Owns m.type) ∨
      m.spelling = m.type.dotted := by
  rcases m.before.draft.spelling_cases m.type with ⟨hshadow, hspelling, howns⟩ | hfull
  · refine .inl ⟨hshadow, hspelling, ?_⟩
    rw [h.spelled]
    exact howns
  · exact .inr (congrArg Prod.fst hfull)

/-- A type in a named package that is mentioned by its simple name owns it afterwards. -/
theorem Within.owns_of_simpleName {v : CompilationUnit} (h : Within u m v)
    (hnamed : m.type.InNamedPackage) (hsimple : m.spelling = m.type.simpleName) :
    m.before.draft.isShadowed m.type = false ∧ m.after.scope.Owns m.type := by
  rcases h.spelling_cases with ⟨hshadow, -, howns⟩ | hfull
  · exact ⟨hshadow, howns⟩
  · rw [hfull] at hsimple
    exact absurd hsimple (TypeName.dotted_ne_simpleName hnamed.1 hnamed.2)

/-- **A type mentioned by its simple name has the name to itself.**  From the mention on the
name stands for the type, and no declared type that is visible there takes it.  Every other
type of the same simple name is mentioned in full, before that as well as after. -/
theorem mention_by_simpleName {edits : List Edit} (hm : m ∈ u.mentions edits)
    (hnamed : m.type.InNamedPackage) (hsimple : m.spelling = m.type.simpleName) :
    (∀ later, (m.after.editAll later).scope.Owns m.type) ∧
      (∀ later, (u.editAll (edits ++ later)).scope.Owns m.type) ∧
      (∀ shadow ∈ m.before.draft.shadows,
        shadow.type.simpleName = m.type.simpleName → shadow.type = m.type) ∧
      ∀ n ∈ u.mentions edits, n.type.InNamedPackage →
        n.type.simpleName = m.type.simpleName → n.type ≠ m.type →
          n.spelling = n.type.dotted ∧ n.spelling ≠ m.type.simpleName := by
  have hwithin := within_mentions hm
  obtain ⟨hshadow, howns⟩ := hwithin.owns_of_simpleName hnamed hsimple
  refine ⟨fun later => howns.mono (grows_editAll _ later), fun later => ?_, ?_, ?_⟩
  · have hend : (u.editAll edits).scope.Owns m.type := howns.mono hwithin.onward
    rw [editAll, List.foldl_append]
    exact hend.mono (grows_editAll _ later)
  · intro shadow hmem hname
    exact Draft.eq_of_isShadowed_eq_false hshadow hmem hname
  · intro n hn hnnamed hname hne
    have hfull : n.spelling = n.type.dotted := by
      rcases mentions_comparable hm hn with rfl | hlater | hearlier
      · exact absurd rfl hne
      · exact Draft.spelling_of_owns (howns.mono hlater) hne hname
      · -- had the earlier mention been by the simple name, this one would not be
        rcases (within_mentions hn).spelling_cases with ⟨-, -, hnowns⟩ | hfull
        · have hdotted : m.spelling = m.type.dotted :=
            Draft.spelling_of_owns (hnowns.mono hearlier) (Ne.symm hne) hname.symm
          rw [hdotted] at hsimple
          exact absurd hsimple (TypeName.dotted_ne_simpleName hnamed.1 hnamed.2)
        · exact hfull
    refine ⟨hfull, ?_⟩
    rw [hfull, ← hname]
    exact TypeName.dotted_ne_simpleName hnnamed.1 hnnamed.2

/-- A mention in the stream by the simple name, and a question after a failure that is
answered in full. -/
theorem mention_by_simpleName_list :
    ∃ u m n, start Visibility.nothing ⟨["com", "example"], ["Widget"]⟩ [] .empty = .ok u ∧
      m ∈ u.mentions [.type ⟨["java", "util"], ["List"]⟩, .char '}',
        .spell ⟨["java", "awt"], ["List"]⟩] ∧
      n ∈ u.mentions [.type ⟨["java", "util"], ["List"]⟩, .char '}',
        .spell ⟨["java", "awt"], ["List"]⟩] ∧
      m.spelling = "List" ∧ n.spelling = "java.awt.List" := by
  have hstart := start_nothing ⟨["com", "example"], ["Widget"]⟩ .empty (by decide)
  have hmentions : ((fresh ⟨["com", "example"], ["Widget"]⟩ .empty
      (Scope.empty.claim ⟨["com", "example"], ["Widget"]⟩ true)).mentions
        [.type ⟨["java", "util"], ["List"]⟩, .char '}', .spell ⟨["java", "awt"], ["List"]⟩]).map
          (fun m => (m.type, m.spelling)) =
      [(⟨["java", "util"], ["List"]⟩, "List"), (⟨["java", "awt"], ["List"]⟩, "java.awt.List")] := by
    decide +kernel
  obtain ⟨m, hm, hmspelling⟩ := List.mem_map.1 (hmentions ▸ List.mem_cons_self)
  obtain ⟨n, hn, hnspelling⟩ :=
    List.mem_map.1 (hmentions ▸ List.mem_cons_of_mem _ List.mem_cons_self)
  obtain ⟨hmtype, hmspelling⟩ := Prod.mk.inj hmspelling
  obtain ⟨hntype, -⟩ := Prod.mk.inj hnspelling
  have hsimple : m.spelling = m.type.simpleName := by
    rw [hmspelling, hmtype]
    decide
  have hother := (mention_by_simpleName hm (by rw [hmtype]; decide) hsimple).2.2.2 n hn
    (by rw [hntype]; decide) (by rw [hmtype, hntype]; decide) (by rw [hmtype, hntype]; decide)
  refine ⟨_, m, n, hstart, hm, hn, hmspelling, ?_⟩
  rw [hother.1, hntype]
  decide

end CompilationUnit
end JavaUnit
