import JavaUnit.Command.Basic
import JavaUnit.Proofs.BodyReading
import JavaUnit.Proofs.NameEncoding
import JavaUnit.Proofs.References

/-!
# What `emit` makes of a body

If a body is rendered without an error, it is read to its end (`BodyTemplate.Reads`), and the unit
takes the characters of its tokens (`BodyTemplate.exists_reads`).  What it makes of them is a copy,
token by token, with a spelling in the place of each reference (`CompilationUnit.Copies`).

## Marks in a body

The marks of a reference are recognised in a body as in any other text.  So a body can spell out
a reference with its marks, and it is replaced as the others are; this is the one thing in a
body besides `$$` and `${name}` that is not copied.  A body that breaks off between the marks is
none that `emit_copies` speaks of: it asks for an end mark after each start mark.

Nothing that is read between the marks can be a `${name}`.  The reference brings marks of its
own, and a payload with a start mark in it names no type (`TypeName.markFree_of_parse`).
-/

namespace JavaUnit

/-! ## Marks that are closed -/

/-- After every start mark in the text comes an end mark. -/
def MarksClosed (cs : List Char) : Prop :=
  ∀ before after, cs = before ++ Reference.startMark :: after → Reference.endMark ∈ after

theorem marksClosed_nil : MarksClosed [] := by
  intro before after h
  exact absurd h (by simp)

theorem marksClosed_cons {c : Char} {cs : List Char} :
    MarksClosed (c :: cs) ↔
      (c = Reference.startMark → Reference.endMark ∈ cs) ∧ MarksClosed cs := by
  constructor
  · intro h
    exact ⟨fun hc => h [] cs (by rw [hc]; rfl),
      fun before after heq => h (c :: before) after (by rw [heq]; rfl)⟩
  · rintro ⟨hfirst, hrest⟩ before after heq
    cases before with
    | nil =>
        obtain ⟨hc, rfl⟩ := List.cons.inj heq
        exact hfirst hc
    | cons d before => exact hrest before after (List.cons.inj heq).2

instance decidableMarksClosed : (cs : List Char) → Decidable (MarksClosed cs)
  | [] => isTrue marksClosed_nil
  | _ :: cs =>
      haveI := decidableMarksClosed cs
      decidable_of_iff _ marksClosed_cons.symm

theorem MarksClosed.of_append {cs ds : List Char} (h : MarksClosed (cs ++ ds)) :
    MarksClosed ds := by
  intro before after heq
  exact h (cs ++ before) after (by rw [heq, List.append_assoc])

/-- A reference closes what it opens. -/
theorem MarksClosed.encode_append {cs : List Char} (h : MarksClosed cs) (q : TypeName) :
    MarksClosed ((Reference.encode q).toList ++ cs) := by
  have hbefore (ds : List Char) : MarksClosed (ds ++ Reference.endMark :: cs) := by
    induction ds with
    | nil => exact marksClosed_cons.2 ⟨fun heq => absurd heq (by decide), h⟩
    | cons d ds ih => exact marksClosed_cons.2 ⟨fun _ => by simp, ih⟩
  have hstream : (Reference.encode q).toList ++ cs =
      (Reference.startMark :: q.explicit.toList) ++ Reference.endMark :: cs := by
    simp
  rw [hstream]
  exact hbefore _

namespace BodyTemplate

/-! ## Marks in a reading -/

theorem Reads.valid {cs : List Char} {tokens : List Token} (h : Reads cs tokens) {q : TypeName}
    (hq : Token.reference q ∈ tokens) : q.Valid := by
  induction h with
  | nil => exact absurd hq List.not_mem_nil
  | dollar hrest ih => exact ih (by simpa using hq)
  | reference hbrace hline hparse hrest ih =>
      rcases List.mem_cons.1 hq with hfirst | hq
      · rw [Token.reference.inj hfirst]
        exact TypeName.valid_of_parse hparse
      · exact ih hq
  | verbatim hdollar hrest ih => exact ih (by simpa using hq)

/-- A mark in a template is read as itself: it is no part of a name. -/
theorem Reads.mem_of_endMark {cs : List Char} {tokens : List Token} (h : Reads cs tokens)
    (hmem : Reference.endMark ∈ cs) : Token.char Reference.endMark ∈ tokens := by
  induction h with
  | nil => exact absurd hmem List.not_mem_nil
  | dollar hrest ih =>
      refine List.mem_cons_of_mem _ (ih ?_)
      exact List.mem_of_ne_of_mem (by decide) (List.mem_of_ne_of_mem (by decide) hmem)
  | @reference name rest q tokens hbrace hline hparse hrest ih =>
      have htail : Reference.endMark ∈ name ++ '}' :: rest :=
        List.mem_of_ne_of_mem (by decide) (List.mem_of_ne_of_mem (by decide) hmem)
      rcases List.mem_append.1 htail with hin | hafter
      · exact absurd hin (TypeName.markFree_of_parse hparse).2
      · exact List.mem_cons_of_mem _ (ih (List.mem_of_ne_of_mem (by decide) hafter))
  | verbatim hdollar hrest ih =>
      rcases List.mem_cons.1 hmem with rfl | hmem
      · exact List.mem_cons_self
      · exact List.mem_cons_of_mem _ (ih hmem)

/-- What is closed in a template is closed in the characters of its tokens.  An end mark in the
template is never part of a name, so it is among these characters too. -/
theorem Reads.marksClosed {cs : List Char} {tokens : List Token} (h : Reads cs tokens)
    (hclosed : MarksClosed cs) : MarksClosed (tokens.flatMap Token.stream) := by
  induction h with
  | nil => exact marksClosed_nil
  | dollar hrest ih =>
      have hcs := (marksClosed_cons.1 (marksClosed_cons.1 hclosed).2).2
      exact marksClosed_cons.2 ⟨fun heq => absurd heq (by decide), ih hcs⟩
  | @reference name rest q tokens hbrace hline hparse hrest ih =>
      have hsplit : '$' :: '{' :: (name ++ '}' :: rest) =
          ('$' :: '{' :: (name ++ ['}'])) ++ rest := by
        simp
      rw [hsplit] at hclosed
      exact (ih hclosed.of_append).encode_append q
  | @verbatim c rest tokens hdollar hrest ih =>
      obtain ⟨hfirst, hcs⟩ := marksClosed_cons.1 hclosed
      refine marksClosed_cons.2 ⟨fun heq => ?_, ih hcs⟩
      exact List.mem_flatMap.2 ⟨_, hrest.mem_of_endMark (hfirst heq), List.mem_cons_self⟩

/-! ## Tokens that are taken -/

/-- The tokens that the unit `u` takes one after the other, and is `v` then. -/
def Takes (u : CompilationUnit) (tokens : List Token) (v : CompilationUnit) : Prop :=
  u.appendList (tokens.flatMap Token.stream) = .ok v

theorem takes_cons {u v : CompilationUnit} {token : Token} {tokens : List Token} :
    Takes u (token :: tokens) v ↔
      (u.appendList token.stream).error? = none ∧
        Takes (u.appendList token.stream).state tokens v := by
  rw [Takes, List.flatMap_cons, CompilationUnit.appendList_append, Outcome.andThen_eq_ok_iff]
  rfl

theorem takes_char_cons {u v : CompilationUnit} {c : Char} {tokens : List Token} :
    Takes u (.char c :: tokens) v ↔
      (u.append c).error? = none ∧ Takes (u.append c).state tokens v := by
  rw [takes_cons, Token.stream, CompilationUnit.appendList_singleton]

/-- **A body that is rendered without an error has a reading**, and the unit has taken the tokens
of it. -/
theorem exists_reads {u v : CompilationUnit} {template : String} (h : u.render template = .ok v) :
    ∃ tokens, Reads template.toList tokens ∧ Takes u tokens v := by
  obtain ⟨tokens, rest, hreads, rfl | hfault⟩ := exists_readsTo template.toList
  · have hfull := reads_iff.2 hreads
    rw [CompilationUnit.render_of_reads hfull, each_put] at h
    exact ⟨tokens, hfull, Outcome.eq_ok_of_mapError h⟩
  · obtain ⟨before, hsplit, -⟩ := hreads.exists_before
    obtain ⟨e, he⟩ := hfault (1 + before.count '\n')
    rw [CompilationUnit.render_of_fault hsplit hreads he, Outcome.andThen_eq_ok_iff] at h
    exact absurd (congrArg Outcome.error? h.2) (by simp)

end BodyTemplate

namespace CompilationUnit

open BodyTemplate

/-! ## The copy -/

/-- What the unit `u` makes of the tokens: a character that is no mark is copied, and a reference
is replaced by its spelling at that place, be it written `${name}` or with its marks. -/
inductive Copies : CompilationUnit → List Token → List Char → Prop where
  | nil (u : CompilationUnit) : Copies u [] []
  | char {u : CompilationUnit} {c : Char} {rest : List Token} {copy : List Char}
      (hstart : c ≠ Reference.startMark) (hend : c ≠ Reference.endMark)
      (hrest : Copies (u.append c).state rest copy) : Copies u (.char c :: rest) (c :: copy)
  | reference {u : CompilationUnit} {q : TypeName} {rest : List Token} {copy : List Char}
      (hrest : Copies (u.appendType q).state rest copy) :
      Copies u (.reference q :: rest) ((u.spell q).1.toList ++ copy)
  | marked {u : CompilationUnit} {payload : List Char} {q : TypeName} {rest : List Token}
      {copy : List Char} (hend : Reference.endMark ∉ payload)
      (hparse : TypeName.parse (String.ofList payload) = .ok q)
      (hrest : Copies (u.appendType q).state rest copy) :
      Copies u (.char Reference.startMark ::
        (payload.map Token.char ++ .char Reference.endMark :: rest))
        ((u.spell q).1.toList ++ copy)

/-- Characters without marks that lead up to an end mark are tokens of their own, and so is the
end mark: a reference would have brought its start mark first. -/
theorem exists_tokens_of_stream {tokens : List Token} {payload after : List Char}
    (hstart : Reference.startMark ∉ payload)
    (h : tokens.flatMap Token.stream = payload ++ Reference.endMark :: after) :
    ∃ rest, tokens = payload.map Token.char ++ .char Reference.endMark :: rest ∧
      rest.flatMap Token.stream = after := by
  induction tokens generalizing payload with
  | nil => exact absurd h (by simp)
  | cons token tokens ih =>
      rw [List.flatMap_cons] at h
      cases payload with
      | nil =>
          cases token with
          | char c =>
              obtain ⟨rfl, hrest⟩ := List.cons.inj h
              exact ⟨tokens, rfl, hrest⟩
          | reference q =>
              rw [Token.stream, Reference.toList_encode] at h
              exact absurd (List.cons.inj h).1 (by decide)
      | cons d payload =>
          rw [List.mem_cons, not_or] at hstart
          cases token with
          | char c =>
              obtain ⟨rfl, hrest⟩ := List.cons.inj h
              obtain ⟨rest, rfl, hafter⟩ := ih hstart.2 hrest
              exact ⟨rest, rfl, hafter⟩
          | reference q =>
              rw [Token.stream, Reference.toList_encode] at h
              exact absurd (List.cons.inj h).1 hstart.1

variable {u v : CompilationUnit}

/-- A plain character that is taken is written. -/
theorem AtRest.text_append (hu : u.AtRest) {c : Char} (hs : c ≠ Reference.startMark)
    (he : c ≠ Reference.endMark) (hok : (u.append c).error? = none) :
    (u.append c).state.text = u.text.push c := by
  obtain ⟨depth, hafter, -⟩ := hu.reading_append hs he hok
  exact congrArg Reading.text hafter

/-- After a reference to a valid name the unit is at rest again. -/
theorem AtRest.appendType (hu : u.AtRest) {q : TypeName} (hq : q.Valid) :
    (u.appendType q).state.AtRest := by
  rw [hu.appendType_eq hq]
  exact ⟨rfl, rfl, hu.noFailure⟩

/-- A payload between its marks that is taken names a type, and does what a reference to that
type does. -/
theorem AtRest.reference_taken (hu : u.AtRest) {payload cs : List Char}
    (hpayload : Reference.endMark ∉ payload)
    (h : u.appendList ((StreamPiece.reference payload).stream ++ cs) = .ok v) :
    ∃ q, TypeName.parse (String.ofList payload) = .ok q ∧
      (u.appendType q).state.appendList cs = .ok v := by
  rw [appendList_append, Outcome.andThen_eq_ok_iff, hu.appendList_reference hpayload] at h
  obtain ⟨htaken, hrest⟩ := h
  cases hparse : TypeName.parse (String.ofList payload) with
  | error cause =>
      rw [hparse] at htaken
      exact absurd htaken (by simp)
  | ok q =>
      rw [hparse] at hrest
      refine ⟨q, rfl, ?_⟩
      rw [hu.appendType_eq (TypeName.valid_of_parse hparse)]
      exact hrest

/-- A start mark that is taken, with an end mark somewhere after it, starts a reference that is
spelled out with its marks. -/
theorem AtRest.marked_taken (hu : u.AtRest) {tokens : List Token}
    (hmem : Reference.endMark ∈ tokens.flatMap Token.stream)
    (htakes : Takes u (.char Reference.startMark :: tokens) v) :
    ∃ payload q rest, tokens = payload.map Token.char ++ .char Reference.endMark :: rest ∧
      Reference.endMark ∉ payload ∧ TypeName.parse (String.ofList payload) = .ok q ∧
        Takes (u.appendType q).state rest v := by
  obtain ⟨payload, after, hsplit, hend⟩ := List.eq_append_cons_of_mem hmem
  have hstream : (Token.char Reference.startMark :: tokens).flatMap Token.stream =
      (StreamPiece.reference payload).stream ++ after := by
    rw [List.flatMap_cons, hsplit]
    simp [StreamPiece.stream, Token.stream]
  rw [Takes, hstream] at htakes
  obtain ⟨q, hparse, hrest⟩ := hu.reference_taken hend htakes
  have hstart := (TypeName.markFree_of_parse hparse).1
  obtain ⟨rest, htokens, rfl⟩ := exists_tokens_of_stream hstart hsplit
  exact ⟨payload, q, rest, htokens, hend, hparse, hrest⟩

/-- What is written after a reference comes after its spelling. -/
theorem AtRest.text_of_appendType (hu : u.AtRest) {q : TypeName} (hq : q.Valid) {copy : List Char}
    (h : v.text = (u.appendType q).state.text ++ String.ofList copy) :
    v.text = u.text ++ String.ofList ((u.spell q).1.toList ++ copy) := by
  obtain ⟨-, hspelled, -, -⟩ := hu.appendType_spell hq
  rw [h, hspelled, String.ofList_append, String.ofList_toList, String.append_assoc]

/-- **Tokens that are taken are copied**, if what is opened among them is closed.  The induction
is on their number: a reference that is spelled out with its marks is as many tokens as it has
characters, and is taken as one. -/
theorem AtRest.exists_copies (hu : u.AtRest) {tokens : List Token}
    (hvalid : ∀ q, Token.reference q ∈ tokens → q.Valid)
    (hclosed : MarksClosed (tokens.flatMap Token.stream)) (htakes : Takes u tokens v) :
    ∃ copy, Copies u tokens copy ∧ v.text = u.text ++ String.ofList copy := by
  induction hlength : tokens.length using Nat.strong_induction_on generalizing u tokens with
  | _ n ih =>
    subst hlength
    cases tokens with
    | nil =>
        obtain rfl : u = v := congrArg Outcome.state htakes
        exact ⟨[], .nil u, by simp⟩
    | cons token tokens =>
        have hrestValid : ∀ q, Token.reference q ∈ tokens → q.Valid := fun q hq =>
          hvalid q (List.mem_cons_of_mem _ hq)
        have hrestClosed : MarksClosed (tokens.flatMap Token.stream) := hclosed.of_append
        cases token with
        | reference q =>
            have hq := hvalid q List.mem_cons_self
            obtain ⟨-, hrest⟩ := takes_cons.1 htakes
            obtain ⟨copy, hcopies, htext⟩ := ih tokens.length (Nat.lt_succ_self _)
              (hu.appendType hq) hrestValid hrestClosed hrest rfl
            exact ⟨_, .reference hcopies, hu.text_of_appendType hq htext⟩
        | char c =>
            by_cases hs : c = Reference.startMark
            · subst hs
              have hmem : Reference.endMark ∈ tokens.flatMap Token.stream :=
                (marksClosed_cons.1 hclosed).1 rfl
              obtain ⟨payload, q, rest, rfl, hend, hparse, hrest⟩ := hu.marked_taken hmem htakes
              have hq := TypeName.valid_of_parse hparse
              rw [List.flatMap_append] at hrestClosed
              have hafterClosed : MarksClosed (rest.flatMap Token.stream) :=
                (marksClosed_cons.1 hrestClosed.of_append).2
              have hafterValid : ∀ q, Token.reference q ∈ rest → q.Valid := fun q hq =>
                hrestValid q (by simp [hq])
              have hshorter : rest.length <
                  (Token.char Reference.startMark ::
                    (payload.map Token.char ++ .char Reference.endMark :: rest)).length := by
                simp only [List.length_cons, List.length_append]
                omega
              obtain ⟨copy, hcopies, htext⟩ := ih rest.length hshorter (hu.appendType hq)
                hafterValid hafterClosed hrest rfl
              exact ⟨_, .marked hend hparse hcopies, hu.text_of_appendType hq htext⟩
            · obtain ⟨htaken, hrest⟩ := takes_char_cons.1 htakes
              by_cases he : c = Reference.endMark
              · -- there is no reference to close
                have hstray := congrArg Outcome.error? hu.reading_strayEnd
                rw [← he, Outcome.error?_map, htaken] at hstray
                exact absurd hstray (by simp)
              · obtain ⟨copy, hcopies, htext⟩ := ih tokens.length (Nat.lt_succ_self _)
                  ((hu.append_plain hs he).2 htaken) hrestValid hrestClosed hrest rfl
                refine ⟨c :: copy, .char hs he hcopies, ?_⟩
                rw [htext, hu.text_append hs he htaken, String.ofList_cons, String.push_eq_append,
                  String.append_assoc]

end CompilationUnit

/-! ## The command -/

open BodyTemplate CompilationUnit

/-- **What `emit` prints is the preamble and then the body, token by token.**  Nothing of a body
is left out, unless it breaks off between the marks of a reference: each dollar sign and each
other character is copied, and each reference is replaced by its spelling at that place. -/
theorem UnitSpec.emit_copies {spec : UnitSpec} {body out : String}
    (hclosed : MarksClosed body.toList) (h : spec.emit body false false = .ok out) :
    ∃ u tokens copy, spec.start = .ok u ∧ Reads body.toList tokens ∧ Copies u tokens copy ∧
      out = preamble spec.target ++ String.ofList copy := by
  unfold emit emitWith render at h
  cases hstart : spec.start with
  | error e =>
      rw [hstart] at h
      exact absurd h (by simp [Except.map])
  | ok u =>
      simp only [hstart] at h
      cases herror : (u.render body).error? with
      | some e =>
          simp only [herror] at h
          exact absurd h (by simp [Except.map])
      | none =>
          simp only [herror] at h
          obtain rfl : (u.render body).state.text = out := Except.ok.inj h
          obtain ⟨tokens, hreads, htakes⟩ := exists_reads (Outcome.eq_ok_state herror)
          obtain ⟨copy, hcopies, htext⟩ := (atRest_of_start hstart).exists_copies
            (fun q hq => hreads.valid hq) (hreads.marksClosed hclosed) htakes
          refine ⟨u, tokens, copy, rfl, hreads, hcopies, ?_⟩
          have hpreamble : u.text = preamble spec.target :=
            congrArg Reading.text (reading_of_start hstart)
          rw [htext, hpreamble]

/-- Both ways to write a reference, and dollar signs of both kinds. -/
theorem UnitSpec.emit_copies_widget :
    ∃ out u tokens copy,
      UnitSpec.emit { target := ⟨["com", "example"], ["Widget"]⟩ }
        "$\x7bjava.util.List\x7d a = \uE000java.awt:List\uE001.$b; // $$1" false false = .ok out ∧
      Reads "$\x7bjava.util.List\x7d a = \uE000java.awt:List\uE001.$b; // $$1".toList tokens ∧
      Copies u tokens copy ∧ out = preamble ⟨["com", "example"], ["Widget"]⟩ ++ String.ofList copy ∧
      String.ofList copy = "List a = java.awt.List.$b; // $1" := by
  have hemit : UnitSpec.emit { target := ⟨["com", "example"], ["Widget"]⟩ }
      "$\x7bjava.util.List\x7d a = \uE000java.awt:List\uE001.$b; // $$1" false false =
      .ok (preamble ⟨["com", "example"], ["Widget"]⟩ ++ "List a = java.awt.List.$b; // $1") := by
    decide +kernel
  obtain ⟨u, tokens, copy, -, hreads, hcopies, hout⟩ :=
    UnitSpec.emit_copies (by decide +kernel) hemit
  refine ⟨_, u, tokens, copy, hemit, hreads, hcopies, hout, ?_⟩
  exact (String.append_right_inj _).1 hout.symm

/-- Two bodies without a dollar sign that `emit` prints otherwise than they stand: a reference
that is spelled out with its marks, and a start mark with no end mark after it. -/
theorem UnitSpec.emit_of_marks :
    UnitSpec.emit { target := ⟨["com", "example"], ["Widget"]⟩ }
        "\uE000java.util:List\uE001" false false =
      .ok (preamble ⟨["com", "example"], ["Widget"]⟩ ++ "List") ∧
    UnitSpec.emit { target := ⟨["com", "example"], ["Widget"]⟩ } "a\uE000b" false false =
      .ok (preamble ⟨["com", "example"], ["Widget"]⟩ ++ "a") := by
  decide +kernel

end JavaUnit
