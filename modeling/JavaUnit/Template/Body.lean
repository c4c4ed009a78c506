import JavaUnit.Unit.Basic

/-!
# Body templates

A body template is source text in which `${name}` refers to a type and `$$` stands for a
dollar sign.  Any other dollar sign stands for itself.  A reference has to end on the line it
starts on; the lines are counted for that, and for telling where an error is.

The text is read once, from left to right, into pieces that are then written in turn.  So an
error in a later piece leaves the unit with all pieces before it written.
-/

namespace JavaUnit

/-- Why a body template cannot be written. -/
inductive BodyError where
  /-- The line ends before the reference that starts with `text` does. -/
  | unterminated (line : Nat) (text : String)
  /-- What a reference says names no type. -/
  | invalidName (line : Nat) (cause : NameError)
  /-- The unit does not take the text. -/
  | emit (cause : EmitError)
  deriving DecidableEq, Repr

/-- What the user is told. -/
def BodyError.message : BodyError → String
  | .unterminated line text =>
      "line " ++ line.repr ++ ": unterminated type reference `$\x7b" ++ text ++ "`"
  | .invalidName line cause => "line " ++ line.repr ++ ": " ++ cause.message
  | .emit cause => cause.message

namespace BodyTemplate

/-- A piece of a template that has been read. -/
inductive Piece where
  | char (c : Char)
  /-- A reference on line `line` to the type that `name` names, if it names one. -/
  | reference (line : Nat) (name : List Char)
  /-- A reference on line `line` that does not end on it. -/
  | unterminated (line : Nat) (rest : List Char)
  deriving DecidableEq, Repr

/-- Where the reader of a template is. -/
inductive Mode where
  | plain
  /-- After a dollar sign. -/
  | dollar
  /-- In a reference, of which `name` was read. -/
  | reference (name : List Char)
  deriving DecidableEq, Repr

/-- The number of the line after `c`. -/
def nextLine (line : Nat) (c : Char) : Nat :=
  if c = '\n' then line + 1 else line

/-- Reads the text from a given mode, on a given line. -/
def pieces (line : Nat) : Mode → List Char → List Piece
  | .plain, [] => []
  | .plain, c :: rest =>
      if c = '$' then pieces line .dollar rest
      else .char c :: pieces (nextLine line c) .plain rest
  | .dollar, [] => [.char '$']
  | .dollar, c :: rest =>
      if c = '$' then .char '$' :: pieces line .plain rest
      else if c = '{' then pieces line (.reference []) rest
      else .char '$' :: .char c :: pieces (nextLine line c) .plain rest
  | .reference name, [] => [.unterminated line name]
  | .reference name, c :: rest =>
      if c = '}' then .reference line name :: pieces line .plain rest
      else if c = '\n' then [.unterminated line name]
      else pieces line (.reference (name ++ [c])) rest

/-- Writes one piece. -/
def write (u : CompilationUnit) : Piece → Outcome CompilationUnit BodyError
  | .char c => (u.append c).mapError .emit
  | .reference line name =>
      match TypeName.parse (String.ofList name) with
      | .error e => .fail u (.invalidName line e)
      | .ok q => (u.appendType q).mapError .emit
  | .unterminated line rest =>
      .fail u (.unterminated line (String.ofList (Text.trimEnd rest)))

end BodyTemplate

/-- Writes a body template up to the first piece that fails. -/
def CompilationUnit.render (u : CompilationUnit) (template : String) :
    Outcome CompilationUnit BodyError :=
  Outcome.each BodyTemplate.write u (BodyTemplate.pieces 1 .plain template.toList)

end JavaUnit
