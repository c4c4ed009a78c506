import JavaUnit.Draft
import JavaUnit.Features
import JavaUnit.Visibility

/-!
# Compilation units

A compilation unit is written for one type, its target.  It starts with a preamble that
names the package of the target, with the simple names of the target and its companions
reserved.  Everything else comes in as a stream of characters, in which references to types
are marked off.

A unit can be read at any time, also with blocks still open: there is no last step.
-/

namespace JavaUnit

/-- A compilation unit in the making. -/
structure CompilationUnit where
  target : TypeName
  features : Features
  draft : Draft
  lexer : Lexer := {}

namespace CompilationUnit

/-- The lines that every unit for `target` starts with. -/
def preamble (target : TypeName) : String :=
  "// Autogenerated code. Do not modify.\npackage " ++ target.packageName ++ ";\n\n"

/-- The scope that a unit starts with: reservations first, visible types after. -/
def startScope (visible : Visibility) (target : TypeName) (companions : List TypeName) :
    Except EmitError Scope := do
  let scope ← (target :: companions).foldlM Scope.reserve Scope.empty
  return scope.see visible target

/-- Starts the unit for `target`. -/
def start (visible : Visibility) (target : TypeName) (companions : List TypeName)
    (features : Features) : Except EmitError CompilationUnit := do
  if target.package = [] then throw (.defaultPackage target)
  let scope ← startScope visible target companions
  return {
    target, features
    draft := { text := preamble target, scope, package := target.package } }

/-- The text written so far, preamble included. -/
def text (u : CompilationUnit) : String :=
  u.draft.text

/-- The simple names of the unit. -/
def scope (u : CompilationUnit) : Scope :=
  u.draft.scope

/-- Writes one character of the stream. -/
def append (u : CompilationUnit) (c : Char) : Outcome CompilationUnit EmitError :=
  let (event, lexer) := u.lexer.classify c
  let o := u.draft.handle event
  ⟨{ u with draft := o.state, lexer }, o.error?⟩

/-- Writes characters of the stream up to the first that fails. -/
def appendList (u : CompilationUnit) (cs : List Char) : Outcome CompilationUnit EmitError :=
  Outcome.each append u cs

/-- Writes a text, in which references may be marked off. -/
def appendText (u : CompilationUnit) (text : String) : Outcome CompilationUnit EmitError :=
  u.appendList text.toList

/-- Writes a reference to `q`. -/
def appendType (u : CompilationUnit) (q : TypeName) : Outcome CompilationUnit EmitError :=
  u.appendText (Reference.encode q)

/-- The spelling that a reference to `q` would get at this point, claiming the simple name of
`q` if it is free. -/
def spell (u : CompilationUnit) (q : TypeName) : String × CompilationUnit :=
  let (spelling, draft) := u.draft.spell q
  (spelling, { u with draft })

theorem state_append (u : CompilationUnit) (c : Char) :
    (u.append c).state =
      { u with
        draft := (u.draft.handle (u.lexer.classify c).1).state
        lexer := (u.lexer.classify c).2 } := rfl

theorem error?_append (u : CompilationUnit) (c : Char) :
    (u.append c).error? = (u.draft.handle (u.lexer.classify c).1).error? := rfl

@[simp] theorem appendList_nil (u : CompilationUnit) : u.appendList [] = .ok u := rfl

@[simp] theorem appendList_cons (u : CompilationUnit) (c : Char) (rest : List Char) :
    u.appendList (c :: rest) = (u.append c).andThen (·.appendList rest) := rfl

theorem appendList_singleton (u : CompilationUnit) (c : Char) : u.appendList [c] = u.append c := by
  rw [appendList_cons]
  obtain ⟨v, _ | e⟩ := u.append c <;> rfl

theorem appendList_append (u : CompilationUnit) (cs ds : List Char) :
    u.appendList (cs ++ ds) = (u.appendList cs).andThen (·.appendList ds) :=
  Outcome.each_append append u cs ds

end CompilationUnit
end JavaUnit
