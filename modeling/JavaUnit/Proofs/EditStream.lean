import JavaUnit.Unit.Edit

/-!
# Every edit is a stream

A template is a way of writing down characters, and so is a reference: whatever a unit is
written with, characters are what it gets.  `Edit.stream` says which, and `state_edit` that
the unit is where these characters lead.  The only edit apart is a spelling asked for ahead of
its reference, which writes nothing.

A percent template comes to its characters or to none at all (`PercentTemplate.fill?`).  A body
template comes to those of the pieces before the first that cannot be written
(`BodyTemplate.stream`).  With that, what holds of the characters of a stream holds of every
edit.
-/

namespace JavaUnit

/-! ## Percent templates -/

namespace PercentTemplate

/-- The characters of the pieces, with each place filled by the next argument. -/
def stream : List Piece → List Argument → List Char
  | [], _ => []
  | .char c :: pieces, arguments => c :: stream pieces arguments
  | .argument :: pieces, a :: arguments => a.stream.toList ++ stream pieces arguments
  | .argument :: pieces, [] => stream pieces []

/-- The characters that a template comes to, if it can be read and takes the arguments. -/
def fill? (template : String) (arguments : List Argument) : Option (List Char) :=
  match parse template.toList with
  | .error _ => none
  | .ok pieces =>
      if arity pieces = arguments.length then some (stream pieces arguments) else none

theorem write_eq_appendList (u : CompilationUnit) (pieces : List Piece)
    (arguments : List Argument) :
    write u pieces arguments = u.appendList (stream pieces arguments) := by
  induction pieces generalizing u arguments with
  | nil => rfl
  | cons piece pieces ih =>
      cases piece with
      | char c =>
          rw [write, stream, CompilationUnit.appendList_cons]
          exact Outcome.andThen_congr _ fun v => ih v arguments
      | argument =>
          cases arguments with
          | nil =>
              rw [write, stream]
              exact ih u []
          | cons a arguments =>
              rw [write, stream, CompilationUnit.appendList_append]
              exact Outcome.andThen_congr _ fun v => ih v arguments

end PercentTemplate

namespace CompilationUnit

open PercentTemplate

variable {u : CompilationUnit} {template : String} {arguments : List Argument}

theorem add_of_fill?_eq_some {cs : List Char} (h : fill? template arguments = some cs) :
    u.add template arguments = u.appendList cs := by
  unfold fill? at h
  unfold add
  cases hparse : parse template.toList with
  | error e =>
      rw [hparse] at h
      exact absurd h (by simp)
  | ok pieces =>
      simp only [hparse] at h ⊢
      split at h
      · rename_i harity
        rw [if_pos harity, write_eq_appendList, Option.some.inj h]
      · exact absurd h (by simp)

theorem addLine_of_fill?_eq_some {cs : List Char} (h : fill? template arguments = some cs) :
    u.addLine template arguments = u.appendList (cs ++ ['\n']) := by
  rw [addLine, add_of_fill?_eq_some h, appendList_append]
  exact Outcome.andThen_congr _ fun v => (appendList_singleton v '\n').symm

theorem add_of_fill?_eq_none (h : fill? template arguments = none) :
    ∃ e, u.add template arguments = .fail u e := by
  unfold fill? at h
  unfold add
  cases hparse : parse template.toList with
  | error e => exact ⟨e, rfl⟩
  | ok pieces =>
      simp only [hparse] at h ⊢
      split at h
      · exact absurd h (by simp)
      · rename_i harity
        exact ⟨.templateArity (arity pieces) arguments.length, by rw [if_neg harity]⟩

end CompilationUnit

/-! ## Body templates -/

namespace BodyTemplate

/-- The characters of the pieces up to the first that cannot be written. -/
def stream : List Piece → List Char
  | [] => []
  | .char c :: pieces => c :: stream pieces
  | .reference _ name :: pieces =>
      match TypeName.parse (String.ofList name) with
      | .error _ => []
      | .ok q => (Reference.encode q).toList ++ stream pieces
  | .unterminated _ _ :: _ => []

/-- A piece and the pieces after it lead where their characters lead. -/
theorem state_andThen_write {u : CompilationUnit} {cs ds : List Char} {pieces : List Piece}
    (h : ∀ v : CompilationUnit,
      (Outcome.each write v pieces).state = (v.appendList ds).state) :
    (((u.appendList cs).mapError BodyError.emit).andThen
        (Outcome.each write · pieces)).state = (u.appendList (cs ++ ds)).state := by
  rw [CompilationUnit.appendList_append]
  cases herror : (u.appendList cs).error? with
  | none =>
      have hmapped : ((u.appendList cs).mapError BodyError.emit).error? = none := by
        rw [Outcome.mapError, herror]
        rfl
      rw [Outcome.andThen_of_ok hmapped, Outcome.andThen_of_ok herror]
      exact h _
  | some e =>
      have hmapped : ((u.appendList cs).mapError BodyError.emit).error? = some (.emit e) := by
        rw [Outcome.mapError, herror]
        rfl
      rw [Outcome.andThen_of_error hmapped, Outcome.andThen_of_error herror]
      rfl

/-- A piece or one after it is refused where their characters are. -/
theorem error?_andThen_write {u : CompilationUnit} {cs ds : List Char} {pieces : List Piece}
    {e : EmitError} (hrest : ∀ v : CompilationUnit, (v.appendList ds).error? = some e →
      (Outcome.each write v pieces).error? = some (.emit e))
    (h : (u.appendList (cs ++ ds)).error? = some e) :
    (((u.appendList cs).mapError BodyError.emit).andThen
        (Outcome.each write · pieces)).error? = some (.emit e) := by
  rw [CompilationUnit.appendList_append] at h
  cases herror : (u.appendList cs).error? with
  | none =>
      rw [Outcome.andThen_of_ok herror] at h
      rw [Outcome.andThen_of_ok (by rw [Outcome.mapError, herror]; rfl)]
      exact hrest _ h
  | some e' =>
      rw [Outcome.andThen_of_error herror, herror] at h
      obtain rfl := Option.some.inj h
      rw [Outcome.andThen_of_error (by rw [Outcome.mapError, herror]; rfl), Outcome.mapError,
        herror]
      rfl

theorem error?_each_write {u : CompilationUnit} {pieces : List Piece} {e : EmitError}
    (h : (u.appendList (stream pieces)).error? = some e) :
    (Outcome.each write u pieces).error? = some (.emit e) := by
  induction pieces generalizing u with
  | nil => exact absurd h (by simp [stream])
  | cons piece pieces ih =>
      rw [Outcome.each_cons]
      cases piece with
      | char c =>
          have hwrite : write u (.char c) = (u.appendList [c]).mapError .emit := by
            rw [CompilationUnit.appendList_singleton]
            rfl
          rw [hwrite]
          exact error?_andThen_write (fun v => ih) h
      | reference line name =>
          simp only [write, stream] at h ⊢
          cases hparse : TypeName.parse (String.ofList name) with
          | error e =>
              rw [hparse] at h
              exact absurd h (by simp)
          | ok q =>
              rw [hparse] at h
              exact error?_andThen_write (fun v => ih) h
      | unterminated line rest => exact absurd h (by simp [stream])

theorem state_each_write (u : CompilationUnit) (pieces : List Piece) :
    (Outcome.each write u pieces).state = (u.appendList (stream pieces)).state := by
  induction pieces generalizing u with
  | nil => rfl
  | cons piece pieces ih =>
      rw [Outcome.each_cons]
      cases piece with
      | char c =>
          have hwrite : write u (.char c) = (u.appendList [c]).mapError .emit := by
            rw [CompilationUnit.appendList_singleton]
            rfl
          rw [hwrite, state_andThen_write ih]
          rfl
      | reference line name =>
          simp only [write, stream]
          cases hparse : TypeName.parse (String.ofList name) with
          | error e => rfl
          | ok q => exact state_andThen_write ih
      | unterminated line rest => rfl

end BodyTemplate

/-! ## Edits -/

/-- The characters that the edit adds to the stream. -/
def Edit.stream : Edit → List Char
  | char c => [c]
  | text s => s.toList
  | type q => (Reference.encode q).toList
  | add template arguments => (PercentTemplate.fill? template arguments).getD []
  | addLine template arguments =>
      match PercentTemplate.fill? template arguments with
      | none => []
      | some cs => cs ++ ['\n']
  | render template => BodyTemplate.stream (BodyTemplate.pieces 1 .plain template.toList)
  | spell _ => []

namespace CompilationUnit

variable (u : CompilationUnit)

theorem state_add (template : String) (arguments : List Argument) :
    (u.add template arguments).state =
      (u.appendList (Edit.add template arguments).stream).state := by
  rw [Edit.stream]
  cases hfill : PercentTemplate.fill? template arguments with
  | none =>
      obtain ⟨e, h⟩ := add_of_fill?_eq_none (u := u) hfill
      rw [h]
      rfl
  | some cs =>
      rw [add_of_fill?_eq_some hfill]
      rfl

theorem state_addLine (template : String) (arguments : List Argument) :
    (u.addLine template arguments).state =
      (u.appendList (Edit.addLine template arguments).stream).state := by
  rw [Edit.stream]
  cases hfill : PercentTemplate.fill? template arguments with
  | none =>
      obtain ⟨e, h⟩ := add_of_fill?_eq_none (u := u) hfill
      rw [addLine, h]
      rfl
  | some cs =>
      rw [addLine_of_fill?_eq_some hfill]

/-- **An edit leads where its characters lead**, unless it only asks for a spelling. -/
theorem edit_cases (e : Edit) :
    (∃ q, e = .spell q) ∨ (u.edit e).state = (u.appendList e.stream).state := by
  cases e with
  | spell q => exact .inl ⟨q, rfl⟩
  | char c =>
      right
      show _ = (u.appendList [c]).state
      rw [appendList_singleton]
      rfl
  | text s => exact .inr rfl
  | type q => exact .inr rfl
  | add template arguments => exact .inr (u.state_add template arguments)
  | addLine template arguments => exact .inr (u.state_addLine template arguments)
  | render template => exact .inr (BodyTemplate.state_each_write u _)

/-- An edit is refused where one of its characters is. -/
theorem error?_edit_of_stream {e : Edit} {cause : EmitError}
    (h : (u.appendList e.stream).error? = some cause) :
    (u.edit e).error? = some (.emit cause) := by
  cases e with
  | spell q => exact absurd h (by simp [Edit.stream])
  | char c =>
      rw [Edit.stream, appendList_singleton] at h
      exact congrArg (Option.map BodyError.emit) h
  | text s => exact congrArg (Option.map BodyError.emit) h
  | type q => exact congrArg (Option.map BodyError.emit) h
  | add template arguments =>
      rw [Edit.stream] at h
      cases hfill : PercentTemplate.fill? template arguments with
      | none =>
          rw [hfill] at h
          exact absurd h (by simp)
      | some cs =>
          rw [hfill, Option.getD_some, ← add_of_fill?_eq_some hfill] at h
          exact congrArg (Option.map BodyError.emit) h
  | addLine template arguments =>
      rw [Edit.stream] at h
      cases hfill : PercentTemplate.fill? template arguments with
      | none =>
          rw [hfill] at h
          exact absurd h (by simp)
      | some cs =>
          rw [hfill] at h
          simp only at h
          rw [← addLine_of_fill?_eq_some hfill] at h
          exact congrArg (Option.map BodyError.emit) h
  | render template => exact BodyTemplate.error?_each_write h

end CompilationUnit
end JavaUnit
