import JavaUnit.JavaLang
import JavaUnit.Scope

/-!
# Names seen without an import

Some types are visible in a unit though nothing in it mentions them: those of `java.lang`,
or those declared elsewhere in the package.  A visibility reports them for the type that
the unit is generated for.  Their simple names are claimed after all reservations, so a
generated type always wins over them.
-/

namespace JavaUnit

/-- The types that are visible without an import in the unit of a given type. -/
abbrev Visibility := TypeName → List TypeName

namespace Visibility

/-- Nothing is visible beyond the reservations. -/
def nothing : Visibility := fun _ => []

/-- The listed types of `java.lang` are visible. -/
def javaLang : Visibility := fun _ => JavaLang.types

/-- Exactly these types are visible. -/
def only (names : List TypeName) : Visibility := fun _ => names

/-- The types with these simple names are visible, declared in the package of the unit.
What cannot be the name of a type is left out. -/
def siblings (simpleNames : List String) : Visibility := fun target =>
  simpleNames.filterMap fun simple => (TypeName.topLevel target.packageName simple).toOption

end Visibility

/-- The scope with the visible types added where their simple names are still free. -/
def Scope.see (s : Scope) (visible : Visibility) (target : TypeName) : Scope :=
  s.declareAll (visible target)

end JavaUnit
