import JavaUnit.Proofs.BodyReading

/-!
# How a percent template is read

In a percent template `%s`, `%n` and `%%` are directives, and every character but a percent sign
stands for itself.  `PercentTemplate.ReadsTo` says so for the part of a template that comes before
some rest.  A template is read up to its end or up to a percent sign with which no directive starts
(`PercentTemplate.Stray`), and there is no third way (`PercentTemplate.exists_readsTo`).

## Places and what fills them

A template that is read to its end has a place for each `%s`.  If there are as many arguments, they
fill the places: the template becomes a row of entries that stand for its pieces and take the
arguments in their order (`PercentTemplate.Fills`).  The entries are then written one after the
other.  In all other cases nothing is written at all, so a template that does not fit leaves the
unit as it was (`CompilationUnit.add_by_reading`).
-/

namespace JavaUnit

theorem decimal_eq_toString (n : Int) : decimal n = toString n := by
  cases n with
  | ofNat n => rfl
  | negSucc n => exact if_pos (Int.negSucc_lt_zero n)

/-- Writes the argument: a type as a reference, all else as it is shown. -/
def Argument.put (u : CompilationUnit) : Argument → Outcome CompilationUnit EmitError
  | text s => u.appendText s
  | char c => u.append c
  | flag b => u.appendText (toString b)
  | number n => u.appendText (toString n)
  | type q => u.appendType q

theorem Argument.put_eq (u : CompilationUnit) (a : Argument) :
    a.put u = u.appendText a.stream := by
  cases a with
  | text s => rfl
  | char c =>
      have hstream : (Argument.char c).stream.toList = [c] := String.toList_singleton c
      rw [CompilationUnit.appendText, hstream, CompilationUnit.appendList_singleton]
      rfl
  | flag b => cases b <;> rfl
  | number n => rw [put, stream, decimal_eq_toString]
  | type q => rfl

namespace PercentTemplate

/-! ## Readings -/

/-- The template is read as these pieces up to `rest`. -/
inductive ReadsTo (rest : List Char) : List Char → List Piece → Prop where
  | here : ReadsTo rest rest []
  | argument {cs : List Char} {pieces : List Piece} (h : ReadsTo rest cs pieces) :
      ReadsTo rest ('%' :: 's' :: cs) (.argument :: pieces)
  | newline {cs : List Char} {pieces : List Piece} (h : ReadsTo rest cs pieces) :
      ReadsTo rest ('%' :: 'n' :: cs) (.char '\n' :: pieces)
  | percent {cs : List Char} {pieces : List Piece} (h : ReadsTo rest cs pieces) :
      ReadsTo rest ('%' :: '%' :: cs) (.char '%' :: pieces)
  | verbatim {c : Char} {cs : List Char} {pieces : List Piece} (hpercent : c ≠ '%')
      (h : ReadsTo rest cs pieces) : ReadsTo rest (c :: cs) (.char c :: pieces)

/-- No directive starts with the percent sign in front: what stands there is `directive`. -/
inductive Stray : List Char → String → Prop where
  | last : Stray ['%'] "%"
  | unknown {c : Char} {cs : List Char} (hargument : c ≠ 's') (hnewline : c ≠ 'n')
      (hpercent : c ≠ '%') : Stray ('%' :: c :: cs) (String.ofList ['%', c])

variable {rest cs : List Char} {pieces : List Piece} {directive : String}

/-- **A template is read up to its end or up to a stray percent sign.**  The cases are those in
which a template is parsed. -/
theorem exists_readsTo (cs : List Char) :
    ∃ pieces rest, ReadsTo rest cs pieces ∧ (rest = [] ∨ ∃ directive, Stray rest directive) := by
  induction cs using parse.induct with
  | case1 => exact ⟨[], [], .here, .inl rfl⟩
  | case2 cs ih =>
      obtain ⟨pieces, rest, h, hrest⟩ := ih
      exact ⟨_, rest, .argument h, hrest⟩
  | case3 cs ih =>
      obtain ⟨pieces, rest, h, hrest⟩ := ih
      exact ⟨_, rest, .newline h, hrest⟩
  | case4 cs ih =>
      obtain ⟨pieces, rest, h, hrest⟩ := ih
      exact ⟨_, rest, .percent h, hrest⟩
  | case5 c cs hargument hnewline hpercent =>
      exact ⟨[], _, .here, .inr ⟨_, .unknown hargument hnewline hpercent⟩⟩
  | case6 => exact ⟨[], _, .here, .inr ⟨_, .last⟩⟩
  | case7 c cs _ _ _ hunknown hlast ih =>
      have hpercent : c ≠ '%' := by
        intro hc
        cases cs with
        | nil => exact hlast hc rfl
        | cons d cs => exact hunknown d cs hc rfl
      obtain ⟨pieces, rest, h, hrest⟩ := ih
      exact ⟨_, rest, .verbatim hpercent h, hrest⟩

theorem parse_verbatim {c : Char} (hpercent : c ≠ '%') (cs : List Char) :
    parse (c :: cs) = (parse cs).map (.char c :: ·) := by
  rw [parse]
  · exact fun _ hc => absurd hc hpercent
  · exact fun _ hc => absurd hc hpercent
  · exact fun _ hc => absurd hc hpercent
  · exact fun _ _ hc => absurd hc hpercent
  · exact fun hc => absurd hc hpercent

/-- What is read comes first, and then what becomes of the rest. -/
theorem ReadsTo.parse_eq (h : ReadsTo rest cs pieces) :
    parse cs = (parse rest).map (pieces ++ ·) := by
  have hcons (piece : Piece) {before : List Piece} {o : Except EmitError (List Piece)} :
      (o.map (before ++ ·)).map (piece :: ·) = o.map (piece :: before ++ ·) := by
    cases o <;> rfl
  induction h with
  | here => cases parse rest <;> rfl
  | argument h ih => rw [parse, ih, hcons]
  | newline h ih => rw [parse, ih, hcons]
  | percent h ih => rw [parse, ih, hcons]
  | verbatim hpercent h ih => rw [parse_verbatim hpercent, ih, hcons]

theorem Stray.parse_eq (h : Stray rest directive) :
    parse rest = .error (.unknownDirective directive) := by
  cases h with
  | last => rfl
  | unknown hargument hnewline hpercent => exact parse.eq_5 _ _ hargument hnewline hpercent

/-! ## Entries -/

/-- What is written for a piece: a character, or the argument that has got its place. -/
inductive Entry where
  | char (c : Char)
  | argument (a : Argument)
  deriving DecidableEq, Repr

/-- The piece for which the entry is written. -/
def Entry.piece : Entry → Piece
  | char c => .char c
  | argument _ => .argument

/-- The argument that the entry takes. -/
def Entry.argument? : Entry → Option Argument
  | char _ => none
  | argument a => some a

/-- Writes the entry. -/
def Entry.put (u : CompilationUnit) : Entry → Outcome CompilationUnit EmitError
  | char c => u.append c
  | argument a => a.put u

/-- The entries stand for the pieces, and take all the arguments in their order. -/
structure Fills (entries : List Entry) (pieces : List Piece) (arguments : List Argument) :
    Prop where
  pieces_eq : entries.map Entry.piece = pieces
  arguments_eq : entries.filterMap Entry.argument? = arguments

variable {entries : List Entry} {arguments : List Argument}

theorem Fills.char (c : Char) (h : Fills entries pieces arguments) :
    Fills (.char c :: entries) (.char c :: pieces) arguments :=
  ⟨congrArg (Piece.char c :: ·) h.pieces_eq, h.arguments_eq⟩

theorem Fills.argument (a : Argument) (h : Fills entries pieces arguments) :
    Fills (.argument a :: entries) (.argument :: pieces) (a :: arguments) :=
  ⟨congrArg (Piece.argument :: ·) h.pieces_eq, congrArg (a :: ·) h.arguments_eq⟩

/-- No argument is left over, and no place. -/
theorem Fills.arity_eq (h : Fills entries pieces arguments) : arity pieces = arguments.length := by
  obtain ⟨rfl, rfl⟩ := h
  induction entries with
  | nil => rfl
  | cons entry entries ih =>
      cases entry with
      | char c =>
          rw [List.map_cons, Entry.piece, arity, List.count_cons_of_ne (by simp)]
          exact ih
      | argument a =>
          rw [List.map_cons, Entry.piece, arity, List.count_cons_self]
          exact congrArg Nat.succ ih

/-- As many arguments as places fill the places. -/
theorem exists_fills (h : arity pieces = arguments.length) :
    ∃ entries, Fills entries pieces arguments := by
  induction pieces generalizing arguments with
  | nil =>
      obtain rfl := List.length_eq_zero_iff.1 h.symm
      exact ⟨[], rfl, rfl⟩
  | cons piece pieces ih =>
      cases piece with
      | char c =>
          have hrest : arity pieces = arguments.length := by
            rwa [arity, List.count_cons_of_ne (by simp)] at h
          obtain ⟨entries, hfills⟩ := ih hrest
          exact ⟨_, hfills.char c⟩
      | argument =>
          rw [arity, List.count_cons_self] at h
          obtain ⟨a, arguments, rfl⟩ := List.exists_cons_of_length_eq_add_one h.symm
          obtain ⟨entries, hfills⟩ := ih (Nat.succ_injective h)
          exact ⟨_, hfills.argument a⟩

/-- Filled pieces are written entry by entry. -/
theorem Fills.write_eq (h : Fills entries pieces arguments) (u : CompilationUnit) :
    write u pieces arguments = Outcome.each Entry.put u entries := by
  obtain ⟨rfl, rfl⟩ := h
  induction entries generalizing u with
  | nil => rfl
  | cons entry entries ih =>
      rw [Outcome.each_cons]
      cases entry with
      | char c => exact Outcome.andThen_congr _ ih
      | argument a =>
          rw [Entry.put, a.put_eq]
          exact Outcome.andThen_congr _ ih

/-! ## Doubled percent signs -/

/-- A text with its percent signs doubled is read as the characters of the text. -/
theorem readsTo_doubled (text : String) :
    ReadsTo [] (Text.doubled '%' text).toList (text.toList.map Piece.char) := by
  rw [Text.doubled, String.toList_ofList]
  induction text.toList with
  | nil => exact .here
  | cons c cs ih =>
      by_cases hc : c = '%'
      · subst hc
        exact .percent ih
      · rw [List.flatMap_cons, if_neg hc]
        exact .verbatim hc ih

theorem fills_chars (cs : List Char) : Fills (cs.map Entry.char) (cs.map Piece.char) [] := by
  induction cs with
  | nil => exact ⟨rfl, rfl⟩
  | cons c cs ih => exact ih.char c

end PercentTemplate

namespace CompilationUnit

open PercentTemplate

variable {u : CompilationUnit} {template : String} {arguments : List Argument}
  {pieces : List Piece}

theorem add_of_stray {rest : List Char} {directive : String}
    (h : ReadsTo rest template.toList pieces) (hstray : Stray rest directive) :
    u.add template arguments = .fail u (.unknownDirective directive) := by
  rw [add, h.parse_eq, hstray.parse_eq]
  rfl

theorem add_of_reads (h : ReadsTo [] template.toList pieces) :
    u.add template arguments =
      if arity pieces = arguments.length then write u pieces arguments
      else .fail u (.templateArity (arity pieces) arguments.length) := by
  have hparse : parse template.toList = .ok pieces := by
    rw [h.parse_eq]
    exact congrArg Except.ok (List.append_nil pieces)
  rw [add, hparse]

/-- **A percent template is checked, and then written as it is read, from left to right.**  Every
template is read up to its end or up to a stray percent sign.  A stray one is told, and so is a
number of arguments that is not the number of places; both leave the unit as it was, and the first
is told before the second.  If the numbers agree, each place is filled with the next argument, and
the unit gets the entries one after the other, until it does not take one.  A newline comes only
after all of them.  And a text in which the percent signs are doubled is written like the text
itself. -/
theorem add_by_reading (u : CompilationUnit) (template : String) (arguments : List Argument) :
    ((∃ pieces, ReadsTo [] template.toList pieces) ∨
      ∃ pieces rest directive, ReadsTo rest template.toList pieces ∧ Stray rest directive) ∧
      (∀ pieces rest directive, ReadsTo rest template.toList pieces → Stray rest directive →
        u.add template arguments = .fail u (.unknownDirective directive)) ∧
      (∀ pieces, ReadsTo [] template.toList pieces →
        pieces.count .argument ≠ arguments.length →
          u.add template arguments =
            .fail u (.templateArity (pieces.count .argument) arguments.length)) ∧
      (∀ pieces, ReadsTo [] template.toList pieces →
        pieces.count .argument = arguments.length →
          (∃ entries, Fills entries pieces arguments) ∧
            ∀ entries, Fills entries pieces arguments →
              u.add template arguments = Outcome.each Entry.put u entries) ∧
      (∀ v, u.add template arguments = .ok v → u.addLine template arguments = v.append '\n') ∧
      (∀ v e, u.add template arguments = .fail v e →
        u.addLine template arguments = .fail v e) ∧
      ∀ text, u.add (Text.doubled '%' text) [] = u.appendText text := by
  refine ⟨?_, fun pieces rest directive => add_of_stray, ?_, ?_, ?_, ?_, fun text => ?_⟩
  · obtain ⟨pieces, rest, h, rfl | ⟨directive, hstray⟩⟩ := exists_readsTo template.toList
    · exact .inl ⟨pieces, h⟩
    · exact .inr ⟨pieces, rest, directive, h, hstray⟩
  · intro pieces h hcount
    rw [add_of_reads h]
    exact if_neg hcount
  · intro pieces h hcount
    refine ⟨exists_fills hcount, fun entries hfills => ?_⟩
    rw [add_of_reads h, ← hfills.write_eq]
    exact if_pos hcount
  · intro v hadd
    rw [addLine, hadd, Outcome.andThen_ok]
  · intro v e hadd
    rw [addLine, hadd, Outcome.andThen_fail]
  · have hfills := fills_chars text.toList
    rw [add_of_reads (readsTo_doubled text), if_pos hfills.arity_eq, hfills.write_eq,
      Outcome.each_map]
    rfl

/-- A template with two places, for no argument and for two, and one with a directive that there is
not. -/
theorem add_by_reading_widget :
    ∃ u, start Visibility.nothing ⟨["com", "example"], ["Widget"]⟩ [] .empty = .ok u ∧
      u.add "%s%s%d%" [] = .fail u (.unknownDirective "%d") ∧
      u.add "%s%%%s" [] = .fail u (.templateArity 2 0) ∧
      u.add "%s%%%s" [.type ⟨[], ["A"]⟩, .number (-1)] = Outcome.each Entry.put u
        [.argument (.type ⟨[], ["A"]⟩), .char '%', .argument (.number (-1))] ∧
      ∃ v : CompilationUnit,
        u.addLine "%s%%%s" [.type ⟨[], ["A"]⟩, .number (-1)] = v.append '\n' ∧
        v.text = preamble ⟨["com", "example"], ["Widget"]⟩ ++ "A%-1" := by
  let u := fresh ⟨["com", "example"], ["Widget"]⟩ .empty
    (Scope.empty.claim ⟨["com", "example"], ["Widget"]⟩ true)
  have hstray : ReadsTo ['%', 'd', '%'] "%s%s%d%".toList [.argument, .argument] :=
    .argument (.argument .here)
  have hreads : ReadsTo [] "%s%%%s".toList [.argument, .char '%', .argument] :=
    .argument (.percent (.argument .here))
  obtain ⟨-, hunknown, -⟩ := add_by_reading u "%s%s%d%" []
  obtain ⟨-, -, harity, -⟩ := add_by_reading u "%s%%%s" []
  obtain ⟨-, -, -, hfilled, hline, -⟩ :=
    add_by_reading u "%s%%%s" [.type ⟨[], ["A"]⟩, .number (-1)]
  refine ⟨u, start_nothing _ _ (by decide), ?_, ?_, ?_, ?_⟩
  · exact hunknown _ _ _ hstray (.unknown (by decide) (by decide) (by decide))
  · exact harity _ hreads (by decide)
  · exact (hfilled _ hreads (by decide)).2 _ ⟨rfl, rfl⟩
  · have herror : (u.add "%s%%%s" [.type ⟨[], ["A"]⟩, .number (-1)]).error? = none := by
      decide +kernel
    exact ⟨_, hline _ (Outcome.eq_ok_state herror), by decide +kernel⟩

end CompilationUnit
end JavaUnit
