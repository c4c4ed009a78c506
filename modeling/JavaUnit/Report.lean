import JavaUnit.Text.Json
import JavaUnit.Unit.Imports

/-!
# Reports

A report tells a program what a person would read off a finished unit: its text, the blocks
left open, who owns which simple name, and what has to be imported.  It is a JSON object, and
types are told by their dotted names in it.
-/

namespace JavaUnit

open Text

/-- What a report says of the binding of a simple name. -/
def Binding.report (b : Binding) (simple : String) : Json :=
  Json.object
    [("simple_name", .str simple),
     ("owner", .str b.owner.dotted),
     ("reserved", .bool b.reserved)]

namespace CompilationUnit

/-- The file as it is printed, with or without its imports. -/
def source (u : CompilationUnit) (withImports : Bool) : String :=
  if withImports then u.renderWithImports else u.text

/-- The report on the unit. -/
def report (u : CompilationUnit) (withImports : Bool) : Json :=
  Json.object
    [("target", .str u.target.dotted),
     ("source", .str (u.source withImports)),
     ("open_blocks", .num u.draft.depth),
     ("bindings", .arr (u.scope.toList.map fun entry => entry.2.report entry.1)),
     ("imports", .arr (u.imports.map fun q => .str q.dotted))]

end CompilationUnit
end JavaUnit
