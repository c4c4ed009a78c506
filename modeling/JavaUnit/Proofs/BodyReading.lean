import JavaUnit.Proofs.Failure

/-!
# How a body template is read

A body template is a row of tokens: `$$` is a dollar sign, `${name}` is a reference to the type that
`name` names, and every other character stands for itself, a dollar sign with neither of the two
behind it included.  `BodyTemplate.ReadsTo` says so for the part of a template that comes before
some rest, without a reader that remembers where it is.

A text is read up to its end or up to a `${` that stands for no reference, because no type has the
name or no brace ends the name on its line (`BodyTemplate.Fault`).  There is no third way
(`BodyTemplate.exists_readsTo`).  What a unit makes of a template follows from its reading alone: it
gets the tokens in their order, up to the first that it does not take, and if it takes all of them,
the fault is told (`CompilationUnit.render_by_reading`).
-/

namespace JavaUnit

/-- The text with every `mark` written twice. -/
def Text.doubled (mark : Char) (text : String) : String :=
  String.ofList (text.toList.flatMap fun c => if c = mark then [c, c] else [c])

namespace BodyTemplate

/-! ## Tokens -/

/-- What stands in a body template. -/
inductive Token where
  | char (c : Char)
  | reference (q : TypeName)
  deriving DecidableEq, Repr

/-- The characters that the unit is given for the token. -/
def Token.stream : Token → List Char
  | char c => [c]
  | reference q => (Reference.encode q).toList

/-- Writes the token. -/
def Token.put (u : CompilationUnit) : Token → Outcome CompilationUnit EmitError
  | char c => u.append c
  | reference q => u.appendType q

theorem Token.put_eq (u : CompilationUnit) (token : Token) :
    token.put u = u.appendList token.stream := by
  cases token with
  | char c => exact (u.appendList_singleton c).symm
  | reference q => rfl

/-- To write tokens is to write their characters. -/
theorem each_put (u : CompilationUnit) (tokens : List Token) :
    Outcome.each Token.put u tokens = u.appendList (tokens.flatMap Token.stream) := by
  induction tokens generalizing u with
  | nil => rfl
  | cons token tokens ih =>
      rw [Outcome.each_cons, List.flatMap_cons, CompilationUnit.appendList_append, Token.put_eq]
      exact Outcome.andThen_congr _ ih

/-- The text is read as these tokens. -/
inductive Reads : List Char → List Token → Prop where
  | nil : Reads [] []
  | dollar {rest : List Char} {tokens : List Token} (hrest : Reads rest tokens) :
      Reads ('$' :: '$' :: rest) (.char '$' :: tokens)
  /-- The name lasts to the first closing brace, and that is on the same line. -/
  | reference {name rest : List Char} {q : TypeName} {tokens : List Token} (hbrace : '}' ∉ name)
      (hline : '\n' ∉ name) (hparse : TypeName.parse (String.ofList name) = .ok q)
      (hrest : Reads rest tokens) :
      Reads ('$' :: '{' :: (name ++ '}' :: rest)) (.reference q :: tokens)
  /-- A dollar sign stands for itself if none of the two follows. -/
  | verbatim {c : Char} {rest : List Char} {tokens : List Token}
      (hdollar : c = '$' → rest.head? ≠ some '$' ∧ rest.head? ≠ some '{')
      (hrest : Reads rest tokens) : Reads (c :: rest) (.char c :: tokens)

/-- The text is read as these tokens up to `rest`. -/
inductive ReadsTo (rest : List Char) : List Char → List Token → Prop where
  | here : ReadsTo rest rest []
  | dollar {cs : List Char} {tokens : List Token} (h : ReadsTo rest cs tokens) :
      ReadsTo rest ('$' :: '$' :: cs) (.char '$' :: tokens)
  | reference {name cs : List Char} {q : TypeName} {tokens : List Token} (hbrace : '}' ∉ name)
      (hline : '\n' ∉ name) (hparse : TypeName.parse (String.ofList name) = .ok q)
      (h : ReadsTo rest cs tokens) :
      ReadsTo rest ('$' :: '{' :: (name ++ '}' :: cs)) (.reference q :: tokens)
  | verbatim {c : Char} {cs : List Char} {tokens : List Token}
      (hdollar : c = '$' → cs.head? ≠ some '$' ∧ cs.head? ≠ some '{')
      (h : ReadsTo rest cs tokens) : ReadsTo rest (c :: cs) (.char c :: tokens)

/-- At the `${` that stands in front, on this line, a text cannot be read on. -/
inductive Fault (line : Nat) : List Char → BodyError → Prop where
  /-- What stands up to the brace names no type. -/
  | invalidName {name rest : List Char} {cause : NameError} (hbrace : '}' ∉ name)
      (hline : '\n' ∉ name) (hparse : TypeName.parse (String.ofList name) = .error cause) :
      Fault line ('$' :: '{' :: (name ++ '}' :: rest)) (.invalidName line cause)
  /-- The line, or the text, ends before a brace comes. -/
  | unterminated {name rest : List Char} (hbrace : '}' ∉ name) (hline : '\n' ∉ name)
      (hend : ∀ c ∈ rest.head?, c = '\n') :
      Fault line ('$' :: '{' :: (name ++ rest))
        (.unterminated line (String.ofList (Text.trimEnd name)))

variable {rest cs : List Char} {tokens : List Token} {line : Nat} {e : BodyError}

/-- To read a text is to read it up to its end. -/
theorem reads_iff : Reads cs tokens ↔ ReadsTo [] cs tokens := by
  constructor
  · intro h
    induction h with
    | nil => exact .here
    | dollar hrest ih => exact .dollar ih
    | reference hbrace hline hparse hrest ih => exact .reference hbrace hline hparse ih
    | verbatim hdollar hrest ih => exact .verbatim hdollar ih
  · intro h
    induction h with
    | here => exact .nil
    | dollar h ih => exact .dollar ih
    | reference hbrace hline hparse h ih => exact .reference hbrace hline hparse ih
    | verbatim hdollar h ih => exact .verbatim hdollar ih

/-- What is read up to a rest is a text of its own, and is read in the same way when it stands
alone. -/
theorem ReadsTo.exists_before (h : ReadsTo rest cs tokens) :
    ∃ before, cs = before ++ rest ∧ Reads before tokens := by
  induction h with
  | here => exact ⟨[], rfl, .nil⟩
  | dollar h ih =>
      obtain ⟨before, rfl, hreads⟩ := ih
      exact ⟨'$' :: '$' :: before, rfl, .dollar hreads⟩
  | @reference name cs q tokens hbrace hline hparse h ih =>
      obtain ⟨before, rfl, hreads⟩ := ih
      exact ⟨'$' :: '{' :: (name ++ '}' :: before), by simp,
        .reference hbrace hline hparse hreads⟩
  | @verbatim c cs tokens hdollar h ih =>
      obtain ⟨before, rfl, hreads⟩ := ih
      refine ⟨c :: before, rfl, .verbatim (fun hc => ?_) hreads⟩
      cases before with
      | nil => simp
      | cons d before => exact hdollar hc

/-- A name lasts until a closing brace, the end of the line or the end of the text. -/
theorem exists_name (cs : List Char) :
    ∃ name tail, cs = name ++ tail ∧ '}' ∉ name ∧ '\n' ∉ name ∧
      ∀ c ∈ tail.head?, c = '}' ∨ c = '\n' := by
  induction cs with
  | nil => exact ⟨[], [], rfl, List.not_mem_nil, List.not_mem_nil, by simp⟩
  | cons c cs ih =>
      by_cases hc : c = '}' ∨ c = '\n'
      · exact ⟨[], c :: cs, rfl, List.not_mem_nil, List.not_mem_nil, by simpa using hc⟩
      · obtain ⟨name, tail, rfl, hbrace, hline, htail⟩ := ih
        rw [not_or] at hc
        exact ⟨c :: name, tail, rfl, by simp [Ne.symm hc.1, hbrace],
          by simp [Ne.symm hc.2, hline], htail⟩

/-- **A text is read up to its end or up to a fault.**  The induction is on the length of the text,
because the name of a reference is read at once. -/
theorem exists_readsTo (cs : List Char) :
    ∃ tokens rest, ReadsTo rest cs tokens ∧ (rest = [] ∨ ∀ line, ∃ e, Fault line rest e) := by
  induction hlength : cs.length using Nat.strong_induction_on generalizing cs with
  | _ n ih =>
    subst hlength
    have hverbatim {c : Char} {after : List Char} (hcs : cs = c :: after)
        (hdollar : c = '$' → after.head? ≠ some '$' ∧ after.head? ≠ some '{') :
        ∃ tokens rest, ReadsTo rest cs tokens ∧ (rest = [] ∨ ∀ line, ∃ e, Fault line rest e) := by
      subst hcs
      obtain ⟨tokens, rest, hreads, hrest⟩ := ih after.length (by simp) after rfl
      exact ⟨_, rest, .verbatim hdollar hreads, hrest⟩
    cases cs with
    | nil => exact ⟨[], [], .here, .inl rfl⟩
    | cons c after =>
        by_cases hc : c = '$' ∧ (after.head? = some '$' ∨ after.head? = some '{')
        · obtain ⟨rfl, hdollar | hopen⟩ := hc
          · obtain ⟨after, rfl⟩ := List.head?_eq_some_iff.1 hdollar
            have hlength : after.length < ('$' :: '$' :: after).length := by
              simp only [List.length_cons]
              omega
            obtain ⟨tokens, rest, hreads, hrest⟩ := ih after.length hlength after rfl
            exact ⟨_, rest, .dollar hreads, hrest⟩
          · obtain ⟨after, rfl⟩ := List.head?_eq_some_iff.1 hopen
            obtain ⟨name, tail, rfl, hbrace, hline, htail⟩ := exists_name after
            by_cases hclose : tail.head? = some '}'
            · obtain ⟨tail, rfl⟩ := List.head?_eq_some_iff.1 hclose
              cases hparse : TypeName.parse (String.ofList name) with
              | error cause =>
                  exact ⟨[], _, .here, .inr fun line => ⟨_, .invalidName hbrace hline hparse⟩⟩
              | ok q =>
                  have hlength : tail.length < ('$' :: '{' :: (name ++ '}' :: tail)).length := by
                    simp only [List.length_cons, List.length_append]
                    omega
                  obtain ⟨tokens, rest, hreads, hrest⟩ := ih tail.length hlength tail rfl
                  exact ⟨_, rest, .reference hbrace hline hparse hreads, hrest⟩
            · refine ⟨[], _, .here, .inr fun line => ⟨_, .unterminated hbrace hline ?_⟩⟩
              intro c hc
              refine (htail c hc).resolve_left fun hcc => hclose ?_
              rw [← hcc]
              exact hc
        · exact hverbatim rfl fun hdollar => not_or.1 fun h => hc ⟨hdollar, h⟩

/-! ## What is written for a reading -/

theorem pieces_dollar_verbatim (line : Nat)
    (h : cs.head? ≠ some '$' ∧ cs.head? ≠ some '{') :
    pieces line .dollar cs = .char '$' :: pieces line .plain cs := by
  cases cs with
  | nil => rfl
  | cons c cs =>
      have hdollar : c ≠ '$' := fun hc => h.1 (by rw [hc]; rfl)
      have hopen : c ≠ '{' := fun hc => h.2 (by rw [hc]; rfl)
      simp [pieces, hdollar, hopen]

/-- A character that stands for itself is a piece. -/
theorem pieces_verbatim (line : Nat) {c : Char}
    (hdollar : c = '$' → cs.head? ≠ some '$' ∧ cs.head? ≠ some '{') :
    pieces line .plain (c :: cs) = .char c :: pieces (nextLine line c) .plain cs := by
  by_cases hc : c = '$'
  · subst hc
    exact pieces_dollar_verbatim line (hdollar rfl)
  · simp [pieces, hc]

/-- The name of a reference is read on up to what ends it. -/
theorem pieces_reference_append (line : Nat) {name : List Char} (hbrace : '}' ∉ name)
    (hline : '\n' ∉ name) (before tail : List Char) :
    pieces line (.reference before) (name ++ tail) =
      pieces line (.reference (before ++ name)) tail := by
  induction name generalizing before with
  | nil => simp
  | cons c name ih =>
      rw [List.mem_cons, not_or] at hbrace hline
      rw [List.cons_append, pieces, if_neg (Ne.symm hbrace.1), if_neg (Ne.symm hline.1),
        ih hbrace.2 hline.2, List.append_assoc, List.singleton_append]

/-- A piece that is written like a token goes in front of pieces that are written like tokens. -/
theorem each_write_token {piece : Piece} (token : Token) {pieces : List Piece}
    {next : CompilationUnit → Outcome CompilationUnit BodyError}
    (hpiece : ∀ v, write v piece = (token.put v).mapError .emit)
    (hrest : ∀ v, Outcome.each write v pieces =
      ((Outcome.each Token.put v tokens).mapError .emit).andThen next) (u : CompilationUnit) :
    Outcome.each write u (piece :: pieces) =
      ((Outcome.each Token.put u (token :: tokens)).mapError .emit).andThen next := by
  rw [Outcome.each_cons, Outcome.each_cons, Outcome.mapError_andThen, Outcome.andThen_assoc, hpiece]
  exact Outcome.andThen_congr _ hrest

/-- **The pieces of a text are written like its tokens, and after them those of the rest.**  The
lines are counted on over what was read. -/
theorem ReadsTo.each_write (h : ReadsTo rest cs tokens) :
    ∃ before, cs = before ++ rest ∧ ∀ line u,
      Outcome.each write u (pieces line .plain cs) =
        ((Outcome.each Token.put u tokens).mapError .emit).andThen fun v =>
          Outcome.each write v (pieces (line + before.count '\n') .plain rest) := by
  induction h with
  | here => exact ⟨[], rfl, fun line u => rfl⟩
  | dollar h ih =>
      obtain ⟨before, rfl, hwritten⟩ := ih
      refine ⟨'$' :: '$' :: before, rfl, fun line u => ?_⟩
      have hcount : ('$' :: '$' :: before).count '\n' = before.count '\n' := by simp
      rw [hcount]
      exact each_write_token (.char '$') (fun v => rfl) (hwritten line) u
  | @reference name cs q tokens hbrace hline hparse h ih =>
      obtain ⟨before, rfl, hwritten⟩ := ih
      refine ⟨'$' :: '{' :: (name ++ '}' :: before), by simp, fun line u => ?_⟩
      have hcount : ('$' :: '{' :: (name ++ '}' :: before)).count '\n' = before.count '\n' := by
        simp [List.count_eq_zero_of_not_mem hline]
      have hpieces : pieces line .plain ('$' :: '{' :: (name ++ '}' :: (before ++ rest))) =
          .reference line name :: pieces line .plain (before ++ rest) := by
        show pieces line (.reference []) _ = _
        rw [pieces_reference_append line hbrace hline]
        rfl
      rw [hcount, hpieces]
      refine each_write_token (.reference q) (fun v => ?_) (hwritten line) u
      simp only [write, hparse]
      rfl
  | @verbatim c cs tokens hdollar h ih =>
      obtain ⟨before, rfl, hwritten⟩ := ih
      refine ⟨c :: before, rfl, fun line u => ?_⟩
      have hcount : line + (c :: before).count '\n' = nextLine line c + before.count '\n' := by
        rw [List.count_cons, nextLine]
        by_cases hc : c = '\n'
        · simp [hc]
          omega
        · simp [hc]
      rw [hcount, pieces_verbatim line hdollar]
      exact each_write_token (.char c) (fun v => rfl) (hwritten _) u

/-- A fault is told where it is met, and leaves the unit as it is. -/
theorem Fault.each_write (h : Fault line rest e) (u : CompilationUnit) :
    Outcome.each write u (pieces line .plain rest) = .fail u e := by
  cases h with
  | @invalidName name rest cause hbrace hline hparse =>
      show Outcome.each write u (pieces line (.reference []) (name ++ '}' :: rest)) = _
      rw [pieces_reference_append line hbrace hline, List.nil_append, pieces, if_pos rfl,
        Outcome.each_cons, write, hparse, Outcome.andThen_fail]
  | @unterminated name rest hbrace hline hend =>
      show Outcome.each write u (pieces line (.reference []) (name ++ rest)) = _
      rw [pieces_reference_append line hbrace hline, List.nil_append]
      have hpieces : pieces line (.reference name) rest = [.unterminated line name] := by
        cases rest with
        | nil => rfl
        | cons c rest =>
            obtain rfl : c = '\n' := hend c rfl
            rfl
      rw [hpieces]
      rfl

end BodyTemplate

namespace CompilationUnit

open BodyTemplate

variable {u : CompilationUnit} {tokens : List Token}

/-- A template that is read to its end is written token by token. -/
theorem render_of_reads {template : String} (h : Reads template.toList tokens) :
    u.render template = (Outcome.each Token.put u tokens).mapError .emit := by
  obtain ⟨before, -, hwritten⟩ := (reads_iff.1 h).each_write
  rw [render, hwritten]
  obtain ⟨v, _ | e⟩ := Outcome.each Token.put u tokens <;> rfl

/-- A template with a fault is written up to the fault. -/
theorem render_of_fault {template : String} {before rest : List Char} {e : BodyError}
    (htemplate : template.toList = before ++ rest) (h : ReadsTo rest template.toList tokens)
    (hfault : Fault (1 + before.count '\n') rest e) :
    u.render template = ((Outcome.each Token.put u tokens).mapError .emit).andThen (.fail · e) := by
  obtain ⟨before', hsplit, hwritten⟩ := h.each_write
  obtain rfl : before = before' := by
    rw [htemplate] at hsplit
    exact List.append_cancel_right hsplit
  rw [render, hwritten]
  exact Outcome.andThen_congr _ hfault.each_write

/-- A unit that has failed takes no character, so one that takes some had not failed and has not. -/
theorem failedAt?_appendList_of_taken {cs : List Char} (h : (u.appendList cs).error? = none) :
    (u.appendList cs).state.draft.failedAt? = u.draft.failedAt? := by
  induction cs generalizing u with
  | nil => rfl
  | cons c cs ih =>
      rw [appendList_cons] at h ⊢
      cases hc : (u.append c).error? with
      | some e =>
          rw [Outcome.andThen_of_error hc, hc] at h
          exact absurd h (by simp)
      | none =>
          rw [Outcome.andThen_of_ok hc] at h ⊢
          have hu : u.draft.failedAt? = none := by
            by_contra hsome
            obtain ⟨offset, hoffset⟩ := Option.ne_none_iff_exists'.1 hsome
            rw [append_of_failed hoffset] at hc
            exact absurd hc (by simp)
          rw [ih h, failedAt?_append_of_taken hc hu, hu]

/-- A text with its dollar signs doubled is read as the characters of the text. -/
theorem reads_doubled (text : String) :
    Reads (Text.doubled '$' text).toList (text.toList.map Token.char) := by
  rw [Text.doubled, String.toList_ofList]
  induction text.toList with
  | nil => exact .nil
  | cons c cs ih =>
      by_cases hc : c = '$'
      · subst hc
        exact .dollar ih
      · rw [List.flatMap_cons, if_neg hc]
        exact .verbatim (fun hdollar => absurd hdollar hc) ih

/-- **A template is written as it is read, from left to right.**  Every template is read up to its
end or up to a fault.  In the first case the unit gets the tokens one after the other, until it does
not take one.  In the second case it gets those before the fault, as if there were nothing else in
the template, and if it takes them all, the fault is the error, on the line on which it is met.
What the fault leaves is not a failed unit, unless it was one before.  And a text in which the
dollar signs are doubled is written like the text itself. -/
theorem render_by_reading (u : CompilationUnit) (template : String) :
    ((∃ tokens, Reads template.toList tokens) ∨
      ∃ before rest tokens e, template.toList = before ++ rest ∧
        ReadsTo rest template.toList tokens ∧ Fault (1 + before.count '\n') rest e) ∧
      (∀ tokens, Reads template.toList tokens →
        u.render template = (Outcome.each Token.put u tokens).mapError .emit) ∧
      (∀ before rest tokens e, template.toList = before ++ rest →
        ReadsTo rest template.toList tokens → Fault (1 + before.count '\n') rest e →
          u.render (String.ofList before) = (Outcome.each Token.put u tokens).mapError .emit ∧
          u.render template = (u.render (String.ofList before)).andThen (.fail · e) ∧
          ((u.render (String.ofList before)).error? = none →
            (u.render template).state.draft.failedAt? = u.draft.failedAt?)) ∧
      ∀ text, u.render (Text.doubled '$' text) = (u.appendText text).mapError .emit := by
  refine ⟨?_, fun tokens h => render_of_reads h, ?_, fun text => ?_⟩
  · obtain ⟨tokens, rest, h, rfl | hfault⟩ := exists_readsTo template.toList
    · exact .inl ⟨tokens, reads_iff.2 h⟩
    · obtain ⟨before, hsplit, -⟩ := h.exists_before
      obtain ⟨e, he⟩ := hfault (1 + before.count '\n')
      exact .inr ⟨before, rest, tokens, e, hsplit, h, he⟩
  · intro before rest tokens e hsplit h hfault
    have hbefore : u.render (String.ofList before) =
        (Outcome.each Token.put u tokens).mapError .emit := by
      obtain ⟨before', hsplit', hreads⟩ := h.exists_before
      obtain rfl : before = before' := by
        rw [hsplit] at hsplit'
        exact List.append_cancel_right hsplit'
      exact render_of_reads (by rwa [String.toList_ofList])
    have hrender : u.render template = (u.render (String.ofList before)).andThen (.fail · e) := by
      rw [render_of_fault hsplit h hfault, hbefore]
    refine ⟨hbefore, hrender, fun hok => ?_⟩
    rw [hrender, Outcome.andThen_of_ok hok, Outcome.state_fail, hbefore, each_put]
    rw [hbefore, each_put] at hok
    exact failedAt?_appendList_of_taken (Option.map_eq_none_iff.1 hok)
  · rw [render_of_reads (reads_doubled text), Outcome.each_map]
    rfl

/-- The fault on the second line leaves the first line written.  The last dollar sign of the line
stands for itself, and the brace behind the doubled one opens a block. -/
theorem render_by_reading_unterminated :
    ∃ u v, start Visibility.nothing ⟨["com", "example"], ["Widget"]⟩ [] .empty = .ok u ∧
      u.render "$\x7b:A\x7d$\n$\x7bb " = .fail v (.unterminated 2 "b") ∧
      v.text = preamble ⟨["com", "example"], ["Widget"]⟩ ++ "A$\n" ∧
      v.draft.failedAt? = none ∧
      v.render "$$\x7b" = (v.appendText "$\x7b").mapError .emit := by
  have hstart := start_nothing ⟨["com", "example"], ["Widget"]⟩ .empty (by decide)
  let u := fresh ⟨["com", "example"], ["Widget"]⟩ .empty
    (Scope.empty.claim ⟨["com", "example"], ["Widget"]⟩ true)
  have hreads : ReadsTo ['$', '{', 'b', ' '] "$\x7b:A\x7d$\n$\x7bb ".toList
      [.reference ⟨[], ["A"]⟩, .char '$', .char '\n'] :=
    @ReadsTo.reference _ [':', 'A'] _ _ _ (by decide) (by decide) (by decide +kernel)
      (.verbatim (by decide) (.verbatim (by decide) .here))
  have hfault : Fault 2 ['$', '{', 'b', ' '] (.unterminated 2 "b") :=
    @Fault.unterminated _ ['b', ' '] [] (by decide) (by decide) (by simp)
  obtain ⟨-, -, hfaulty, -⟩ := render_by_reading u "$\x7b:A\x7d$\n$\x7bb "
  obtain ⟨hbefore, hrender, hpoison⟩ := hfaulty "$\x7b:A\x7d$\n".toList _ _ _ rfl hreads hfault
  have hok : (u.render (String.ofList "$\x7b:A\x7d$\n".toList)).error? = none := by
    decide +kernel
  rw [Outcome.andThen_of_ok hok] at hrender
  refine ⟨u, _, hstart, hrender, ?_, ?_, ?_⟩
  · decide +kernel
  · have hkept := hpoison hok
    rw [hrender] at hkept
    exact hkept
  · exact (render_by_reading _ "").2.2.2 "$\x7b"

end CompilationUnit
end JavaUnit
