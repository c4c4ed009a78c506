import JavaUnit.Proofs.Lexemes
import JavaUnit.Proofs.Stream

/-!
# Which texts a unit takes

A text without references is taken by a fresh unit exactly if no beginning of it closes more
blocks than it opens.  What counts are the braces in code, so the condition is put in terms of
the lexical grammar, `openBraces` and `closeBraces`, and knows nothing of how the lexer works.

The first brace that closes nothing ends the run.  It is written, and the error points at it:
its place is counted in bytes, since everything before it may be any text.

The way there is by the events of a text.  `Event.Affords` says of a number of open blocks
that they are enough for some events; taking one event off changes the number as the event
does, and `each_readChar_of_affords` and `exists_refused_brace` are the two inductions along
that.
-/

namespace JavaUnit

namespace Reading

/-- A text is read to its end if the open blocks are enough for it. -/
theorem each_readChar_of_affords {r : Reading} {cs : List Char}
    (h : Event.Affords r.depth (r.state.events cs)) :
    ∃ depth, Outcome.each readChar r cs =
        .ok ⟨r.text ++ String.ofList cs, r.state.after cs, depth⟩ ∧
      depth + Event.closes (r.state.events cs) = r.depth + Event.opens (r.state.events cs) := by
  induction cs generalizing r with
  | nil => exact ⟨r.depth, by simp, rfl⟩
  | cons c cs ih =>
      cases herror : (r.readChar c).error? with
      | none =>
          obtain ⟨depth, hread, hdepth⟩ := readChar_of_ok herror
          obtain ⟨depth', heach, hdepth'⟩ := @ih ⟨r.text.push c, (r.state.read c).2, depth⟩
            ((Event.affords_cons hdepth).1 h)
          refine ⟨depth', ?_, ?_⟩
          · rw [Outcome.each_cons, hread, Outcome.andThen_ok, heach, LexState.after_cons,
              String.ofList_cons, String.push_eq_append, String.append_assoc]
          · rw [LexState.events_cons, Event.closes_cons, Event.opens_cons]
            simp only at hdepth'
            omega
      | some e =>
          obtain ⟨hevent, -, hdepth, -⟩ := readChar_of_error herror
          have hfirst := h [(r.state.read c).1] (List.cons_prefix_cons.2 ⟨rfl, List.nil_prefix⟩)
          rw [hevent, hdepth] at hfirst
          exact absurd hfirst (by decide)

/-- Otherwise there is a first brace that closes nothing, and there the reading ends. -/
theorem exists_refused_brace {r : Reading} {cs : List Char}
    (h : ¬ Event.Affords r.depth (r.state.events cs)) :
    ∃ before after, cs = before ++ '}' :: after ∧
      Event.Affords r.depth (r.state.events before) ∧
      r.depth + Event.opens (r.state.events (before ++ ['}'])) <
        Event.closes (r.state.events (before ++ ['}'])) ∧
      ∃ state, Outcome.each readChar r cs =
        .fail ⟨(r.text ++ String.ofList before).push '}', state, 0⟩
          (.unbalancedClose ((r.text ++ String.ofList before).push '}')
            ⟨(r.text ++ String.ofList before).utf8ByteSize, 1⟩) := by
  induction cs generalizing r with
  | nil => exact absurd (Event.affords_nil r.depth) h
  | cons c cs ih =>
      cases herror : (r.readChar c).error? with
      | none =>
          obtain ⟨depth, hread, hdepth⟩ := readChar_of_ok herror
          obtain ⟨before, after, rfl, hbefore, hbrace, state, heach⟩ :=
            @ih ⟨r.text.push c, (r.state.read c).2, depth⟩
              (mt (Event.affords_cons hdepth).2 h)
          refine ⟨c :: before, after, rfl, (Event.affords_cons hdepth).2 hbefore, ?_, state, ?_⟩
          · rw [List.cons_append, LexState.events_cons, Event.closes_cons, Event.opens_cons]
            simp only at hbrace
            omega
          · rw [Outcome.each_cons, hread, Outcome.andThen_ok, heach, String.ofList_cons]
            simp only [String.push_eq_append, String.append_assoc]
      | some e =>
          obtain ⟨hevent, rfl, hdepth, hread⟩ := readChar_of_error herror
          refine ⟨[], cs, rfl, Event.affords_nil _, ?_, (r.state.read '}').2, ?_⟩
          · rw [List.nil_append, LexState.events_cons, LexState.events_nil, hevent, hdepth]
            decide
          · rw [Outcome.each_cons, hread, Outcome.andThen_fail, String.ofList_nil,
              String.append_empty]

end Reading

/-- Whether a text needs blocks open before it is told by the braces among its lexemes. -/
theorem affords_events_normal_iff {cs : List Char} :
    Event.Affords 0 (LexState.normal.events cs) ↔
      ∀ p, p <+: cs → closeBraces p ≤ openBraces p := by
  constructor
  · intro h p hp
    have hp' := h _ (LexState.prefix_events_iff.2 ⟨p, hp, rfl⟩)
    rw [closes_normal, opens_normal] at hp'
    omega
  · intro h es hes
    obtain ⟨p, hp, rfl⟩ := LexState.prefix_events_iff.1 hes
    have hp' := h p hp
    rw [closes_normal, opens_normal]
    omega

namespace CompilationUnit

variable {visible : Visibility} {target : TypeName} {companions : List TypeName}
  {features : Features} {u : CompilationUnit}

/-- **The braces in code decide what a fresh unit takes.**  A text without references is taken
exactly if no beginning of it has more `}` than `{` in code.  Then the blocks left open are the
`{` that no `}` answers.  If it is not taken, the run ends with the first `}` in code that
answers no `{`: it is the last character written, no block is open, and the error gives its
place in bytes. -/
theorem appendText_of_markFree (h : start visible target companions features = .ok u)
    {t : String} (ht : MarkFree t.toList) :
    ((u.appendText t).error? = none ↔
        ∀ p, p <+: t.toList → closeBraces p ≤ openBraces p) ∧
      ((u.appendText t).error? = none →
        (u.appendText t).state.draft.depth + closeBraces t.toList = openBraces t.toList ∧
          (u.appendText t).state.text = preamble target ++ t) ∧
      ∀ e, (u.appendText t).error? = some e →
        ∃ before after : String, t = before.push '}' ++ after ∧
          (∀ p, p <+: before.toList → closeBraces p ≤ openBraces p) ∧
          openBraces (before.push '}').toList < closeBraces (before.push '}').toList ∧
          e = .unbalancedClose (preamble target ++ before.push '}')
            ⟨(preamble target).utf8ByteSize + before.utf8ByteSize, 1⟩ ∧
          (u.appendText t).state.text = preamble target ++ before.push '}' ∧
          (u.appendText t).state.draft.depth = 0 := by
  have hread : (u.appendText t).map reading =
      Outcome.each Reading.readChar ⟨preamble target, .normal, 0⟩ t.toList := by
    rw [← reading_of_start h]
    exact (atRest_of_start h).map_reading_of_markFree ht
  have herror : (u.appendText t).error? = ((u.appendText t).map reading).error? := rfl
  have htext : (u.appendText t).state.text = ((u.appendText t).map reading).state.text := rfl
  have hdepth : (u.appendText t).state.draft.depth =
      ((u.appendText t).map reading).state.depth := rfl
  rw [herror, htext, hdepth, hread, ← affords_events_normal_iff]
  by_cases hafford : Event.Affords 0 (LexState.normal.events t.toList)
  · obtain ⟨depth, heach, hcount⟩ := Reading.each_readChar_of_affords
      (r := ⟨preamble target, .normal, 0⟩) hafford
    simp only [closes_normal, opens_normal, Nat.zero_add] at hcount
    rw [heach]
    refine ⟨iff_of_true rfl hafford, fun _ => ⟨hcount, by simp⟩, fun e he => ?_⟩
    exact absurd he (by simp)
  · obtain ⟨before, after, hsplit, hbefore, hbrace, state, heach⟩ :=
      Reading.exists_refused_brace (r := ⟨preamble target, .normal, 0⟩) hafford
    rw [heach]
    refine ⟨iff_of_false (by simp) hafford, fun hok => absurd hok (by simp), fun e he => ?_⟩
    simp only [closes_normal, opens_normal, Nat.zero_add] at hbrace
    refine ⟨String.ofList before, String.ofList after, ?_, ?_, ?_, ?_, ?_, rfl⟩
    · rw [← String.toList_inj, hsplit]
      simp
    · rw [String.toList_ofList]
      exact affords_events_normal_iff.1 hbefore
    · simpa using hbrace
    · obtain rfl : _ = e := Option.some.inj he
      simp [String.push_eq_append, String.append_assoc]
    · simp [String.push_eq_append, String.append_assoc]

/-- Of five closing braces one stands in a comment, one in a string and one in a character
literal, and of the two in code the second closes nothing. -/
theorem appendText_of_markFree_unbalanced :
    ∃ u, start Visibility.nothing ⟨["com", "example"], ["Widget"]⟩ [] .empty = .ok u ∧
      MarkFree "é\x7b /* \x7d */ \"\\\"\x7d\" \x27\x7d\x27 \x7d é\x7d".toList ∧
      (u.appendText "é\x7b /* \x7d */ \"\\\"\x7d\" \x27\x7d\x27 \x7d é\x7d").error? ≠ none := by
  have hstart := start_nothing ⟨["com", "example"], ["Widget"]⟩ .empty (by decide)
  refine ⟨_, hstart, by decide, fun hok => ?_⟩
  have hbalanced := (appendText_of_markFree hstart (by decide)).1.1 hok _ (List.prefix_refl _)
  exact absurd hbalanced (by decide +kernel)

end CompilationUnit
end JavaUnit
