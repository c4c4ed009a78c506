import JavaUnit.TypeName.Basic

/-!
# The package that needs no import

Every compilation unit sees the types of `java.lang` without importing them.  The list
holds the ones that generated code commonly refers to.
-/

namespace JavaUnit
namespace JavaLang

/-- The segments of the package. -/
def package : List String := ["java", "lang"]

/-- Simple names of the types that every unit sees. -/
def simpleNames : List String :=
  ["AutoCloseable", "Boolean", "Byte", "CharSequence", "Character", "Class",
   "ClassCastException", "Cloneable", "Comparable", "Deprecated", "Double", "Enum", "Error",
   "Exception", "Float", "FunctionalInterface", "IllegalArgumentException",
   "IllegalStateException", "IndexOutOfBoundsException", "Integer", "Iterable", "Long", "Math",
   "NullPointerException", "Number", "Object", "Override", "Record", "Runnable",
   "RuntimeException", "SafeVarargs", "Short", "String", "StringBuilder", "SuppressWarnings",
   "System", "Thread", "Throwable", "UnsupportedOperationException", "Void"]

/-- Whether `simple` is listed. -/
def lists (simple : String) : Bool :=
  simpleNames.contains simple

/-- The type `simple` of the package, listed or not, identifier or not. -/
def named (simple : String) : TypeName :=
  ⟨package, [simple]⟩

/-- The listed types. -/
def types : List TypeName :=
  simpleNames.map named

@[simp] theorem simpleName_named (simple : String) : (named simple).simpleName = simple := rfl

@[simp] theorem isTopLevel_named (simple : String) : (named simple).isTopLevel = true := rfl

end JavaLang
end JavaUnit
