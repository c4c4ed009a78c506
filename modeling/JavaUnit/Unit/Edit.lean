import JavaUnit.Template.Body
import JavaUnit.Template.Percent

/-!
# Edits

The steps in which a unit is written, as data.  All but the last write to the unit; a
spelling asked for ahead of its reference may claim a simple name.
-/

namespace JavaUnit

/-- A step in the making of a unit. -/
inductive Edit where
  | char (c : Char)
  | text (s : String)
  | type (q : TypeName)
  | add (template : String) (arguments : List Argument)
  | addLine (template : String) (arguments : List Argument)
  | render (template : String)
  | spell (q : TypeName)
  deriving DecidableEq, Repr

/-- Takes one step. -/
def CompilationUnit.edit (u : CompilationUnit) : Edit → Outcome CompilationUnit BodyError
  | .char c => (u.append c).mapError .emit
  | .text s => (u.appendText s).mapError .emit
  | .type q => (u.appendType q).mapError .emit
  | .add template arguments => (u.add template arguments).mapError .emit
  | .addLine template arguments => (u.addLine template arguments).mapError .emit
  | .render template => u.render template
  | .spell q => .ok (u.spell q).2

/-- Takes the steps in turn, those after a failure included. -/
def CompilationUnit.editAll (u : CompilationUnit) (edits : List Edit) : CompilationUnit :=
  edits.foldl (fun u edit => (u.edit edit).state) u

end JavaUnit
