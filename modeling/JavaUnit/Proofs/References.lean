import JavaUnit.Proofs.EmittedText
import JavaUnit.Proofs.Runs

/-!
# References in a run

Wherever a run stands between two references, the next one is taken if its type has a valid
name: the explicit form is read back as the type it was written for, and the spelling of that
very type gets into the text (`AtRest.appendType_eq`).

The lexer never sees the spelling, it only settles what was pending.  In every state but one
that is what the spelling would have done to it.  After a backslash in a literal the next
character of the text is escaped, and that is the first of the spelling.  The lexer goes on
waiting for a character to escape, and escapes the one after the reference
(`Reaches.lexer_appendType`).
-/

namespace JavaUnit

/-- A name after a backslash gives its first character to it, and the literal goes on. -/
theorem LexState.after_escaped_of_isNamePart {quote : Quote} {cs : List Char}
    (hcs : ∀ c ∈ cs, isNamePart c = true) (hne : cs ≠ []) :
    (escaped quote).after cs = literal quote := by
  cases cs with
  | nil => exact absurd rfl hne
  | cons c cs =>
      show (literal quote).after cs = literal quote
      by_cases hnil : cs = []
      · rw [hnil, after_nil]
      · have hliteral (quote' : Quote) : literal quote ≠ escaped quote' := by simp
        exact after_of_isNamePart hliteral (fun d hd => hcs d (List.mem_cons_of_mem _ hd)) hnil

namespace CompilationUnit

variable {u v : CompilationUnit} {history : List BlockStep} {q : TypeName}

/-- What a reference adds to the text and to the scope is what asking for a spelling gives. -/
theorem AtRest.appendType_spell (hu : u.AtRest) (hq : q.Valid) :
    (u.appendType q).error? = none ∧
      (u.appendType q).state.text = u.text ++ (u.spell q).1 ∧
      (u.appendType q).state.scope = (u.spell q).2.scope ∧
      (u.appendType q).state.lexer = ⟨u.lexer.state.settle, false⟩ := by
  rw [hu.appendType_eq hq]
  exact ⟨rfl, rfl, rfl, rfl⟩

/-! ## The lexer after a reference -/

variable {visible : Visibility} {target : TypeName} {companions : List TypeName}
  {features : Features}

/-- **Only after a backslash does a reference leave the lexer elsewhere than its spelling
would.**  In a run that has not failed and is not in a reference, a reference to a valid name is
taken, and the text grows by the spelling.  The lexer is then where reading the spelling leads,
exactly if no character was to be escaped.  If one was, the lexer still waits for it, while the
text has it already. -/
theorem Reaches.lexer_appendType (hstart : start visible target companions features = .ok u)
    (h : Reaches u history v) (hok : v.draft.isPoisoned = false)
    (hmark : v.lexer.inReference = false) (hq : q.Valid) :
    (v.appendType q).error? = none ∧
      (v.appendType q).state.text = v.text ++ (v.spell q).1 ∧
      ((v.appendType q).state.lexer = v.lexer.after (v.spell q).1.toList ↔
        ∀ quote, v.lexer.state ≠ .escaped quote) ∧
      ∀ quote, v.lexer.state = .escaped quote →
        (v.appendType q).state.lexer = v.lexer ∧
          v.lexer.after (v.spell q).1.toList = ⟨.literal quote, false⟩ := by
  have hrest := h.atRest hstart hok hmark
  obtain ⟨htaken, htext, -, hlexer⟩ := hrest.appendType_spell hq
  obtain ⟨hname, hne⟩ : (∀ c ∈ (v.spell q).1.toList, isNamePart c = true) ∧
      (v.spell q).1.toList ≠ [] := isNamePart_of_mem_spelling hq v.draft
  have hread : v.lexer.after (v.spell q).1.toList =
      ⟨v.lexer.state.after (v.spell q).1.toList, false⟩ := by
    rw [hrest.lexer_eq]
    exact Lexer.after_of_markFree (markFree_of_isNamePart hname) _
  have hescaped (quote : Quote) (hstate : v.lexer.state = .escaped quote) :
      (v.appendType q).state.lexer = v.lexer ∧
        v.lexer.after (v.spell q).1.toList = ⟨.literal quote, false⟩ := by
    constructor
    · rw [hlexer, hrest.lexer_eq, hstate]
      rfl
    · rw [hread, hstate, LexState.after_escaped_of_isNamePart hname hne]
  refine ⟨htaken, htext, ⟨fun heq quote hstate => ?_, fun hstate => ?_⟩, hescaped⟩
  · obtain ⟨hstays, hmoves⟩ := hescaped quote hstate
    rw [hstays, hmoves, hrest.lexer_eq, hstate] at heq
    exact absurd (congrArg Lexer.state heq) (by simp)
  · rw [hlexer, hread, LexState.after_of_isNamePart hstate hname hne]

/-- A reference right after the backslash in a string is taken, and the backslash goes on
waiting. -/
theorem Reaches.lexer_appendType_backslash :
    ∃ u v history, start Visibility.nothing ⟨["com", "example"], ["Widget"]⟩ [] .empty = .ok u ∧
      Reaches u history v ∧ v.lexer = ⟨.escaped .string, false⟩ ∧
      (v.appendType ⟨["java", "util"], ["List"]⟩).error? = none ∧
      (v.appendType ⟨["java", "util"], ["List"]⟩).state.lexer = ⟨.escaped .string, false⟩ := by
  have hstart := start_nothing ⟨["com", "example"], ["Widget"]⟩ .empty (by decide)
  obtain ⟨later, hreach⟩ := Reaches.refl (u := fresh ⟨["com", "example"], ["Widget"]⟩ .empty
    (Scope.empty.claim ⟨["com", "example"], ["Widget"]⟩ true)).appendList ['"', '\\']
  have hlexer : ((fresh ⟨["com", "example"], ["Widget"]⟩ .empty
      (Scope.empty.claim ⟨["com", "example"], ["Widget"]⟩ true)).appendList ['"', '\\']).state.lexer
        = ⟨.escaped .string, false⟩ := by
    decide +kernel
  obtain ⟨htaken, -, -, hescaped⟩ := hreach.lexer_appendType (q := ⟨["java", "util"], ["List"]⟩)
    hstart (by decide +kernel) (by decide +kernel) (by decide +kernel)
  refine ⟨_, _, _, hstart, hreach, hlexer, htaken, ?_⟩
  rw [(hescaped .string (by rw [hlexer])).1, hlexer]

/-- Where the lexer and the text part: the quote after `"\List` closes the string in the text,
and the unit takes it for the character that was to be escaped. -/
theorem lexer_appendType_ne_after_spelling :
    ∃ u v w history,
      start Visibility.nothing ⟨["com", "example"], ["Widget"]⟩ [] .empty = .ok u ∧
      Reaches u history v ∧ v.AtRest ∧ (⟨["java", "util"], ["List"]⟩ : TypeName).Valid ∧
      v.appendType ⟨["java", "util"], ["List"]⟩ = .ok w ∧
      w.lexer.state = .escaped .string ∧
      (v.lexer.after (v.spell ⟨["java", "util"], ["List"]⟩).1.toList).state = .literal .string ∧
      (w.append '"').state.lexer.state = .literal .string ∧
      (w.append '"').state.text = preamble ⟨["com", "example"], ["Widget"]⟩ ++ "\"\\List\"" ∧
      (Lexer.after {} "\"\\List\"".toList).state = .normal := by
  have hstart := start_nothing ⟨["com", "example"], ["Widget"]⟩ .empty (by decide)
  obtain ⟨later, hreach⟩ := Reaches.refl (u := fresh ⟨["com", "example"], ["Widget"]⟩ .empty
    (Scope.empty.claim ⟨["com", "example"], ["Widget"]⟩ true)).appendList ['"', '\\']
  have hrest := hreach.atRest hstart (by decide +kernel) (by decide +kernel)
  have hvalid : (⟨["java", "util"], ["List"]⟩ : TypeName).Valid := by decide +kernel
  refine ⟨_, _, _, _, hstart, hreach, hrest, hvalid, hrest.appendType_eq hvalid, ?_⟩
  decide +kernel

end CompilationUnit
end JavaUnit
