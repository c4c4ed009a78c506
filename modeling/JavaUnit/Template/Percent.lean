import JavaUnit.Unit.Basic

/-!
# Percent templates

In a percent template `%s` stands for the next argument, `%n` for a newline and `%%` for a
percent sign; all other characters stand for themselves.  A template is read in full and its
arguments are counted before anything is written, so a template that does not fit leaves the
unit as it was.
-/

namespace JavaUnit

/-- What can fill a place of a template. -/
inductive Argument where
  | text (s : String)
  | char (c : Char)
  | flag (b : Bool)
  | number (n : Int)
  /-- A reference, spelled like any other. -/
  | type (q : TypeName)
  deriving DecidableEq, Repr

/-- A number in plain decimal. -/
def decimal (n : Int) : String :=
  if n < 0 then "-" ++ n.natAbs.repr else n.natAbs.repr

namespace Argument

/-- The characters that the argument adds to the stream. -/
def stream : Argument → String
  | text s => s
  | char c => c.toString
  | flag b => if b then "true" else "false"
  | number n => decimal n
  | type q => Reference.encode q

end Argument

namespace PercentTemplate

/-- A piece of a template that has been read. -/
inductive Piece where
  | char (c : Char)
  /-- The place of an argument. -/
  | argument
  deriving DecidableEq, Repr

/-- Reads a template. -/
def parse : List Char → Except EmitError (List Piece)
  | [] => .ok []
  | '%' :: 's' :: rest => (parse rest).map (.argument :: ·)
  | '%' :: 'n' :: rest => (parse rest).map (.char '\n' :: ·)
  | '%' :: '%' :: rest => (parse rest).map (.char '%' :: ·)
  | '%' :: c :: _ => .error (.unknownDirective (String.ofList ['%', c]))
  | ['%'] => .error (.unknownDirective "%")
  | c :: rest => (parse rest).map (.char c :: ·)

/-- The number of arguments that the pieces take. -/
def arity (pieces : List Piece) : Nat :=
  pieces.count .argument

/-- Writes the pieces one after the other, each place filled with the next argument. -/
def write (u : CompilationUnit) : List Piece → List Argument → Outcome CompilationUnit EmitError
  | [], _ => .ok u
  | .char c :: pieces, arguments => (u.append c).andThen (write · pieces arguments)
  | .argument :: pieces, a :: arguments =>
      (u.appendText a.stream).andThen (write · pieces arguments)
  | .argument :: pieces, [] => write u pieces []

end PercentTemplate

namespace CompilationUnit

open PercentTemplate in
/-- Writes a percent template filled with `arguments`. -/
def add (u : CompilationUnit) (template : String) (arguments : List Argument) :
    Outcome CompilationUnit EmitError :=
  match parse template.toList with
  | .error e => .fail u e
  | .ok pieces =>
      if arity pieces = arguments.length then write u pieces arguments
      else .fail u (.templateArity (arity pieces) arguments.length)

/-- Writes a percent template and a newline after it. -/
def addLine (u : CompilationUnit) (template : String) (arguments : List Argument) :
    Outcome CompilationUnit EmitError :=
  (u.add template arguments).andThen (·.append '\n')

end CompilationUnit
end JavaUnit
