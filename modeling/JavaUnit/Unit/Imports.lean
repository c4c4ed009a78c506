import JavaUnit.Unit.Basic

/-!
# Imports

A type that a unit spells by its simple name has to be imported, unless the reader of the
file finds it anyway: the target and its companions are declared with the unit, the types of
`java.lang` and of the unit's own package need no import, and neither do the types nested in
the target.

The unit's own text has no imports.  They are put in when the file is rendered.
-/

namespace JavaUnit
namespace CompilationUnit

/-- Whether `q` is found by its simple name in the unit for `target` without an import. -/
def seenWithoutImport (target q : TypeName) : Bool :=
  q.isTopLevel && (q.package == target.package || q.package == JavaLang.package)
    || q.package == target.package && q.outermost? == target.outermost?

/-- The types that the finished file has to import, in the order of their dotted names. -/
def imports (u : CompilationUnit) : List TypeName :=
  let bound := u.scope.toList.filterMap fun (_, b) => if b.reserved then none else some b.owner
  (bound.filter (!seenWithoutImport u.target ·)).mergeSort (·.dotted ≤ ·.dotted)

/-- The import declaration of `q`. -/
def importLine (q : TypeName) : String :=
  "import " ++ q.dotted ++ ";\n"

/-- The text after the preamble. -/
def body (u : CompilationUnit) : String :=
  String.ofList (u.text.toList.drop (preamble u.target).length)

/-- The file with its imports between preamble and body. -/
def renderWithImports (u : CompilationUnit) : String :=
  match u.imports with
  | [] => u.text
  | imports => preamble u.target ++ String.join (imports.map importLine) ++ "\n" ++ u.body

end CompilationUnit
end JavaUnit
