import JavaUnit.Proofs.CodeWords
import Mathlib.Data.List.Basic

/-!
# Which code names a block

A block is the body of a type if the code before it declares one.  What that means is said here of
the lexemes of the text: a keyword that is a word of its own and follows no dot, then the name, and
nothing from there to the brace that ends a statement or a block (`Declares`).  The header keeps how
much of it has come (`Justifies`), and so a block that is given a name has such a declaration before
it.

Between keyword and name stands what `Lexeme.passes` lets by, and that is more than white space and
comments.  A slash passes whether or not a comment comes of it, and so does a literal.  Likewise a
comment hides a dot before it, as the header has seen its first slash as code.  So there are blocks
with the name of a type that is declared nowhere (`names_block_of_division`).
-/

namespace JavaUnit

open Unicode

/-- Whether the lexeme is white space or a comment. -/
def Lexeme.isBlank : Lexeme → Bool
  | code c => isWhiteSpace c
  | lineComment _ | blockComment _ => true
  | literal _ _ => false

/-- The lexemes announce a type: its name can come next. -/
inductive Announces : List Lexeme → Prop where
  | mk {earlier gap : List Lexeme} {keyword : String}
      (hkeyword : isDeclarationKeyword keyword = true) (hwhole : Whole earlier gap)
      (hdot : lastShown? earlier ≠ some '.') (hgap : ∀ l ∈ gap, l.passes = true) :
      Announces (earlier ++ codeWord keyword ++ gap)

/-- The lexemes declare the type `name`: its body can come next. -/
inductive Declares (name : String) : List Lexeme → Prop where
  | mk {before tail : List Lexeme} (h : Announces before) (hname : isIdentifier name = true)
      (hwhole : Whole before tail) (htail : ∀ l ∈ tail, l.ends = false) :
      Declares name (before ++ codeWord name ++ tail)

/-- What the lexemes are if a declaration has come this far. -/
def Justifies (ls : List Lexeme) : Pending → Prop
  | .nothing => True
  | .keyword => Announces ls
  | .named name => Declares name ls

variable {ls more before after : List Lexeme} {l : Lexeme} {name word : String}
  {pending : Pending} {done : List Lexeme} {h : Header}

/-! ## Further lexemes -/

/-- What comes after a word that is whole may go on. -/
theorem Whole.extend (h : Whole before after)
    (hmore : after = [] → ∀ l ∈ more.head?, l.isPart = false) : Whole before (after ++ more) := by
  refine ⟨h.started, ?_⟩
  cases after with
  | nil => exact hmore rfl
  | cons l after => exact h.ended

theorem Lexeme.isPart_of_passes (h : l.passes = true) : l.isPart = false := by
  cases l with
  | code c =>
      rw [passes, Bool.or_eq_true, beq_iff_eq] at h
      refine Bool.eq_false_iff.2 fun hpart => ?_
      rcases h with hspace | rfl
      · rw [isWhiteSpace_of_isIdentifierPart hpart] at hspace
        exact absurd hspace (by decide)
      · exact absurd hpart (by decide +kernel)
  | _ => rfl

theorem Lexeme.ends_of_passes (h : l.passes = true) : l.ends = false := by
  cases l with
  | code c =>
      rw [passes, Bool.or_eq_true, beq_iff_eq] at h
      rcases h with hspace | rfl
      · refine Bool.eq_false_iff.2 fun hends => ?_
        simp only [ends, Bool.or_eq_true, beq_iff_eq] at hends
        rcases hends with (rfl | rfl) | rfl <;> exact absurd hspace (by decide +kernel)
      · rfl
  | _ => rfl

theorem Lexeme.ends_of_isPart (h : l.isPart = true) : l.ends = false := by
  cases l with
  | code c =>
      have hpart : isIdentifierPart c = true := h
      have hne (d : Char) (hd : isIdentifierPart d = false) : (c == d) = false :=
        beq_eq_false_iff_ne.2 (ne_of_apply_ne isIdentifierPart (by rw [hpart, hd]; decide))
      rw [ends, hne ';' (by decide +kernel), hne '{' (by decide +kernel),
        hne '}' (by decide +kernel)]
      rfl
  | _ => rfl

theorem Announces.concat (h : Announces ls) (hl : l.passes = true) : Announces (ls ++ [l]) := by
  obtain ⟨hkeyword, hwhole, hdot, hgap⟩ := h
  rw [List.append_assoc]
  refine ⟨hkeyword, hwhole.extend fun _ => ?_, hdot, fun m hm => ?_⟩
  · simpa using Lexeme.isPart_of_passes hl
  · rw [List.mem_append, List.mem_singleton] at hm
    rcases hm with hm | rfl
    · exact hgap m hm
    · exact hl

/-- A declaration goes on with what ends no statement and does not make the name longer. -/
theorem Declares.extend (h : Declares name ls) (hmore : ∀ l ∈ more, l.ends = false)
    (hhead : inWord ls = true → ∀ l ∈ more.head?, l.isPart = false) :
    Declares name (ls ++ more) := by
  obtain ⟨hannounces, hname, hwhole, htail⟩ := h
  rw [List.append_assoc]
  refine ⟨hannounces, hname, hwhole.extend fun hnil => hhead ?_, fun m hm => ?_⟩
  · rw [hnil, List.append_nil]
    exact inWord_codeWord hwhole.started (isWord_of_isIdentifier hname)
  · rw [List.mem_append] at hm
    rcases hm with hm | hm
    · exact htail m hm
    · exact hmore m hm

theorem Lexeme.shown?_ne_dot_of_passes (h : l.passes = true) : l.shown? ≠ some '.' := by
  cases l with
  | code c =>
      rw [passes, Bool.or_eq_true, beq_iff_eq] at h
      rcases h with hspace | rfl
      · simp [shown?, hspace]
      · decide +kernel
  | lineComment body => simp [shown?]
  | blockComment body => simp [shown?]
  | literal quote body => simp [shown?]

/-- Behind an announcement a word follows no dot. -/
theorem Announces.lastShown?_ne_dot (h : Announces ls) : lastShown? ls ≠ some '.' := by
  obtain ⟨hkeyword, -, -, hgap⟩ := h
  rename_i earlier gap keyword
  have hword := isWord_of_isDeclarationKeyword hkeyword
  obtain ⟨c, hlast, hdot⟩ := getLast?_ne_dot_of_isWord hword
  rw [lastShown?_append, lastShown?_append, lastShown?_codeWord hword, hlast]
  cases hshown : lastShown? gap with
  | none => simpa using hdot
  | some d =>
      rintro hd
      obtain rfl : d = '.' := by simpa using hd
      obtain ⟨l, hl, hshows⟩ := List.mem_filterMap.1 (List.mem_of_getLast? hshown)
      exact Lexeme.shown?_ne_dot_of_passes (hgap l hl) hshows

/-! ## What the header waits for -/

/-- A word that ends brings a declaration no further than the lexemes do. -/
theorem Justifies.endWord (hh : Header.Tracks {} done h) (hj : Justifies done h.pending) :
    Justifies (done ++ codeWord h.word) h.endWord.pending := by
  have hwhole : Whole done [] := ⟨hh.outside, by simp⟩
  have hstays (hpending : h.pending ≠ .keyword) :
      Justifies (done ++ codeWord h.word) h.pending := by
    cases hp : h.pending with
    | nothing => trivial
    | keyword => exact absurd hp hpending
    | named name =>
        rw [hp] at hj
        refine Declares.extend hj (fun l hl => ?_) fun hin => ?_
        · obtain ⟨c, hc, rfl⟩ := List.mem_map.1 hl
          exact Lexeme.ends_of_isPart (hh.parts c hc)
        · rw [hh.outside] at hin
          exact absurd hin (by decide)
  unfold Header.endWord
  split
  · rename_i hword
    rw [hword, codeWord_empty, List.append_nil]
    exact hj
  · rename_i hword
    have hdot := hh.afterDot_eq hword
    rw [Option.or_none] at hdot
    split
    · rename_i hafter
      rw [hafter] at hdot
      refine hstays fun hpending => ?_
      rw [hpending] at hj
      exact hj.lastShown?_ne_dot (by simpa using hdot.symm)
    · rename_i hafter
      split
      · rename_i hkeyword
        have hclear : lastShown? done ≠ some '.' := by
          intro hlast
          rw [hlast] at hdot
          exact hafter hdot
        have hannounces := Announces.mk hkeyword hwhole hclear (by simp)
        rw [List.append_nil] at hannounces
        exact hannounces
      · split
        · rename_i hpending
          rw [hpending] at hj
          dsimp only
          split
          · rename_i hname
            have hdeclares := Declares.mk hj hname hwhole (by simp)
            rw [List.append_nil] at hdeclares
            exact hdeclares
          · trivial
        · exact hstays ‹_›

/-- A lexeme that ends the word cancels the declaration or is let by. -/
theorem Justifies.concat (hj : Justifies ls pending) (hl : inWord (ls ++ [l]) = false) :
    Justifies (ls ++ [l]) (if l.cancels pending then .nothing else pending) := by
  cases hcancels : l.cancels pending with
  | true => trivial
  | false =>
      rw [Lexeme.cancels, Bool.or_eq_false_iff] at hcancels
      cases pending with
      | nothing => trivial
      | keyword => exact Announces.concat hj (by simpa using hcancels.2)
      | named name =>
          refine Declares.extend hj (by simpa using hcancels.1) fun hin => ?_
          rw [inWord_concat, hin, if_pos rfl] at hl
          simpa using hl

/-- **What a header waits for is justified by the lexemes it has seen.**  The invariant speaks of
the lexemes that are done, and the word in progress is added at the end. -/
theorem justifies_endWord_foldl_see (ls : List Lexeme) :
    Justifies ls (ls.foldl Header.see {}).endWord.pending := by
  have hfresh : ({} : Header).word = "" := rfl
  obtain ⟨done, hls, hh, hj⟩ := Header.Tracks.inv (P := Justifies) hfresh trivial
    (fun done h l hh hj hl => (hj.endWord hh).concat hl) ls
  have hended := hj.endWord hh
  rw [← hls] at hended
  exact hended

/-! ## The block that is opened -/

/-- A type that is declared is named after the innermost type whose body is open, or after the
package if there is none. -/
theorem Draft.eq_of_declared {d : Draft} {simple : String} {q : TypeName}
    (h : d.declared simple = .ok q) :
    q = d.enclosingType?.elim ⟨d.package, [simple]⟩
      fun outer => ⟨outer.package, outer.path ++ [simple]⟩ := by
  unfold declared at h
  cases henclosing : d.enclosingType? with
  | none =>
      rw [henclosing] at h
      exact (TypeName.ofSegments_eq_ok_iff.1 h).1
  | some outer =>
      rw [henclosing] at h
      exact (TypeName.ofSegments_eq_ok_iff.1 h).1

theorem Draft.simpleName_of_declared {d : Draft} {simple : String} {q : TypeName}
    (h : d.declared simple = .ok q) : q.simpleName = simple := by
  rw [eq_of_declared h]
  cases d.enclosingType? with
  | none => rfl
  | some outer => simp [TypeName.simpleName]

namespace CompilationUnit

variable {visible : Visibility} {target : TypeName} {companions : List TypeName}
  {features : Features} {u v : CompilationUnit} {cs : List Char}

/-- A `{` in code opens the block that the header announces. -/
theorem AtRest.append_openBrace (hv : v.AtRest)
    (hbrace : (v.lexer.state.read '{').1 = .blockOpen) :
    v.append '{' =
      .ok { v with draft := v.draft.openBlock, lexer := ⟨(v.lexer.state.read '{').2, false⟩ } := by
  have hclassify : v.lexer.classify '{' = (.blockOpen, ⟨(v.lexer.state.read '{').2, false⟩) := by
    rw [hv.classify_plain (by decide) (by decide), hbrace]
  rw [append_eq_ok (by rw [hclassify]; exact Draft.handle_eq_ok hv.noFailure rfl), hclassify]

/-- **A block that gets the name of a type has a declaration of that name before it.**  A text
without references is streamed to a new unit, and then comes a brace in code.  It opens the body of
a type only if the text declares a type with that simple name, and else it opens a block of code,
which shadows nothing and claims nothing. -/
theorem names_block_of_declares (hstart : start visible target companions features = .ok u)
    (hfree : MarkFree cs) (h : u.appendList cs = .ok v)
    (hbrace : (v.lexer.state.read '{').1 = .blockOpen) :
    ∃ w, v.append '{' = .ok w ∧
      ((∃ q, w.draft.blocks = ⟨.type q, v.draft.depth + 1⟩ :: v.draft.blocks ∧
          Declares q.simpleName (lexemes cs)) ∨
        (w.draft.blocks = ⟨.code, v.draft.depth + 1⟩ :: v.draft.blocks ∧
          w.draft.shadows = v.draft.shadows ∧ w.scope = v.scope)) := by
  obtain ⟨hv, -, hheader⟩ := (atRest_of_start hstart).of_appendList hfree h
  have hfresh : u.lexer.state = .normal ∧ u.draft.header = {} := by
    obtain ⟨-, scope, -, rfl⟩ := start_eq_ok_iff.1 hstart
    exact ⟨rfl, rfl⟩
  rw [hfresh.1, hfresh.2, Header.foldl_note_normal] at hheader
  refine ⟨_, hv.append_openBrace hbrace, ?_⟩
  rcases v.draft.openBlock_cases with hcode | ⟨simple, q, hname, hq, htype⟩
  · right
    dsimp only [scope]
    rw [hcode]
    exact ⟨rfl, rfl, rfl⟩
  · left
    refine ⟨q, by dsimp only; rw [htype]; rfl, ?_⟩
    have hpending := Header.openBlock_fst_eq_some_iff.1 hname
    have hjustified := justifies_endWord_foldl_see (lexemes cs)
    rw [← hheader, hpending] at hjustified
    rw [Draft.simpleName_of_declared hq]
    exact hjustified

/-- A comment parts the name from what follows, and the body is that of the type declared. -/
theorem names_block_of_declares_interface :
    ∃ u v w, start Visibility.nothing ⟨["com", "example"], ["Widget"]⟩ [] .empty = .ok u ∧
      MarkFree "interface A/* of B */extends C ".toList ∧
      u.appendList "interface A/* of B */extends C ".toList = .ok v ∧
      (v.lexer.state.read '{').1 = .blockOpen ∧ v.append '{' = .ok w ∧
      w.draft.blocks = [⟨.type ⟨["com", "example"], ["A"]⟩, 1⟩] ∧
      Declares "A" (lexemes "interface A/* of B */extends C ".toList) := by
  let target : TypeName := ⟨["com", "example"], ["Widget"]⟩
  let u := fresh target .empty (Scope.empty.claim target true)
  let cs := "interface A/* of B */extends C ".toList
  let v := (u.appendList cs).state
  have hstart : start Visibility.nothing target [] .empty = .ok u :=
    start_nothing target .empty (by decide)
  have hfree : MarkFree cs := by decide +kernel
  have htaken : (u.appendList cs).error? = none := by decide +kernel
  have hv : u.appendList cs = .ok v := Outcome.eq_ok_state htaken
  have hbrace : (v.lexer.state.read '{').1 = .blockOpen := by decide +kernel
  have hblocks : (v.append '{').state.draft.blocks =
      [⟨.type ⟨["com", "example"], ["A"]⟩, 1⟩] := by
    decide +kernel
  obtain ⟨w, hw, hnamed⟩ := names_block_of_declares hstart hfree hv hbrace
  rw [hw] at hblocks
  refine ⟨u, v, w, hstart, hfree, hv, hbrace, hw, hblocks, ?_⟩
  rcases hnamed with ⟨q, hq, hdeclares⟩ | ⟨hcode, -⟩
  · have hblock : (⟨.type q, v.draft.depth + 1⟩ : Block) =
        ⟨.type ⟨["com", "example"], ["A"]⟩, 1⟩ :=
      (List.cons_eq_cons.1 (hq.symm.trans hblocks)).1
    have hname : q = ⟨["com", "example"], ["A"]⟩ :=
      BlockKind.type.inj (congrArg Block.kind hblock)
    rw [hname] at hdeclares
    exact hdeclares
  · have hblock := (List.cons_eq_cons.1 (hcode.symm.trans hblocks)).1
    exact absurd (congrArg Block.kind hblock) (by simp)

/-- A variable `record` is divided by another, and the block gets the name of the other.  No keyword
stands before the name with nothing but white space and comments between. -/
theorem names_block_of_division :
    ∃ u v w, start Visibility.nothing ⟨["com", "example"], ["Widget"]⟩ [] .empty = .ok u ∧
      u.appendList "while (record/n > 0) ".toList = .ok v ∧ v.append '{' = .ok w ∧
      w.draft.blocks = [⟨.type ⟨["com", "example"], ["n"]⟩, 1⟩] ∧
      w.scope.binding? "n" = some ⟨⟨["com", "example"], ["n"]⟩, false⟩ ∧
      ¬ ∃ earlier keyword gap tail,
        lexemes "while (record/n > 0) ".toList =
          earlier ++ codeWord keyword ++ gap ++ codeWord "n" ++ tail ∧
        isDeclarationKeyword keyword = true ∧ ∀ l ∈ gap, l.isBlank = true := by
  let target : TypeName := ⟨["com", "example"], ["Widget"]⟩
  let u := fresh target .empty (Scope.empty.claim target true)
  let cs := "while (record/n > 0) ".toList
  let v := (u.appendList cs).state
  let w := (v.append '{').state
  have htaken : (u.appendList cs).error? = none := by decide +kernel
  have hopened : (v.append '{').error? = none := by decide +kernel
  have hcut : lexemes cs = codeWord "while (record" ++ [.code '/'] ++ .code 'n' ::
      codeWord " > 0) " := by
    decide +kernel
  refine ⟨u, v, w, start_nothing target .empty (by decide), Outcome.eq_ok_state htaken,
    Outcome.eq_ok_state hopened, by decide +kernel, by decide +kernel, ?_⟩
  rintro ⟨earlier, keyword, gap, tail, hsplit, hkeyword, hgap⟩
  have hname : codeWord "n" = [.code 'n'] := by decide +kernel
  rw [hcut, hname, List.append_assoc _ [Lexeme.code 'n'], List.singleton_append] at hsplit
  obtain ⟨hbefore, -, -⟩ :=
    (List.append_cons_inj_of_notMem (by decide +kernel) (by decide +kernel)).1 hsplit
  rcases List.eq_nil_or_concat gap with rfl | ⟨blanks, l, rfl⟩
  · -- the keyword would end with the slash
    have hlast := congrArg List.getLast? hbefore
    rw [List.append_nil, List.getLast?_concat, List.getLast?_append] at hlast
    rcases isDeclarationKeyword_cases hkeyword with rfl | rfl | rfl | rfl <;>
      exact absurd hlast (by simp [codeWord])
  · rw [List.concat_eq_append, ← List.append_assoc] at hbefore
    obtain rfl : Lexeme.code '/' = l := by simpa using (List.append_inj' hbefore rfl).2
    have hblank := hgap (.code '/') (by simp)
    exact absurd hblank (by decide +kernel)

end CompilationUnit
end JavaUnit
