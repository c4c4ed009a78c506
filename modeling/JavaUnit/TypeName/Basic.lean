import JavaUnit.Text.Segments
import JavaUnit.Words

/-!
# Names of types

A type is named by the segments of its package and by its nesting path: `com.example` with
`Outer.Inner` names the type `Inner` that is declared in `Outer`.  The two lists are kept
apart, because the dotted text `com.example.Outer.Inner` does not say where the package
ends.

The data is plain.  `TypeName.Valid` says which values name a type that can be written
down, and `TypeName.ofSegments` builds no others.
-/

namespace JavaUnit

/-- Why a text or a pair of segment lists names no type. -/
inductive NameError where
  /-- Nothing but white space. -/
  | empty
  /-- `segment` is no identifier; `input` is the dotted name it stands in. -/
  | invalidSegment (input segment : String)
  /-- No segment of `input` can be taken for a type. -/
  | noType (input : String)
  deriving DecidableEq, Repr

/-- What the user is told. -/
def NameError.message : NameError → String
  | .empty => "qualified name is empty"
  | .invalidSegment input segment =>
      "`" ++ segment ++ "` is not a valid identifier in `" ++ input ++ "`"
  | .noType input =>
      "`" ++ input ++ "` names no type; expected a segment starting with an uppercase letter " ++
        "or `package:Type`"

/-- The name of a type: the segments of its package, then its nesting path from the
outermost type inwards.  Names are ordered by package first, segment by segment. -/
structure TypeName where
  package : List String
  path : List String
  deriving DecidableEq, Ord, Repr

namespace TypeName

/-- Package and nesting path in one list. -/
def segments (q : TypeName) : List String :=
  q.package ++ q.path

/-- The name as it stands in source text, such as `com.example.Outer.Inner`. -/
def dotted (q : TypeName) : String :=
  Text.dotted q.segments

/-- The package as it stands in a package declaration. -/
def packageName (q : TypeName) : String :=
  Text.dotted q.package

/-- The character that separates package and nesting path in the explicit form. -/
def separator : Char := ':'

/-- The name with its package marked off, such as `com.example:Outer.Inner`. -/
def explicit (q : TypeName) : String :=
  q.packageName.push separator ++ Text.dotted q.path

/-- The last segment of the nesting path. -/
def simpleName (q : TypeName) : String :=
  (q.path.getLast? <|> q.package.getLast?).getD ""

/-- The outermost type of the nesting path. -/
def outermost? (q : TypeName) : Option String :=
  q.path.head?

/-- Whether the type is declared directly in its package. -/
def isTopLevel (q : TypeName) : Bool :=
  q.path.length == 1

/-- A name that can be written down: there is a type, and all segments are identifiers. -/
def Valid (q : TypeName) : Prop :=
  q.path ≠ [] ∧ ∀ s ∈ q.segments, isIdentifier s = true

instance (q : TypeName) : Decidable q.Valid :=
  inferInstanceAs (Decidable (_ ∧ _))

/-- The name with these segments.  A missing type is reported first, then the first
segment that is no identifier, package before nesting path. -/
def ofSegments (package path : List String) : Except NameError TypeName :=
  let q : TypeName := ⟨package, path⟩
  if path = [] then .error (.noType q.dotted)
  else
    match q.segments.find? (!isIdentifier ·) with
    | some segment => .error (.invalidSegment q.dotted segment)
    | none => .ok q

/-- The type `simple` of the package written `package`. -/
def topLevel (package simple : String) : Except NameError TypeName :=
  ofSegments (Text.segments package.toList) [simple]

/-- The type `simple` declared in the body of `q`. -/
def nestedType (q : TypeName) (simple : String) : Except NameError TypeName :=
  ofSegments q.package (q.path ++ [simple])

/-- The type whose body declares `q`, if `q` is nested. -/
def enclosing? (q : TypeName) : Option TypeName :=
  if q.path.length ≤ 1 then none else some ⟨q.package, q.path.dropLast⟩

theorem length_path_of_enclosing? {q e : TypeName} (h : q.enclosing? = some e) :
    e.path.length + 1 = q.path.length := by
  unfold enclosing? at h
  split at h
  · simp at h
  · obtain rfl := Option.some.inj h
    simp only [List.length_dropLast]
    omega

/-- The types around `q`, innermost first. -/
def enclosings (q : TypeName) : List TypeName :=
  match _h : q.enclosing? with
  | none => []
  | some e => e :: e.enclosings
termination_by q.path.length
decreasing_by
  have := length_path_of_enclosing? _h
  omega

theorem enclosings_of_eq_none {q : TypeName} (h : q.enclosing? = none) : q.enclosings = [] := by
  rw [enclosings]
  split
  · rfl
  · rename_i e he
    rw [h] at he
    exact absurd he (by simp)

theorem enclosings_of_eq_some {q e : TypeName} (h : q.enclosing? = some e) :
    q.enclosings = e :: e.enclosings := by
  rw [enclosings]
  split
  · rename_i he
    rw [h] at he
    exact absurd he (by simp)
  · rename_i e' he
    rw [h] at he
    rw [Option.some.inj he]

/-- The names in order, equal names next to each other. -/
def sort (names : List TypeName) : List TypeName :=
  names.mergeSort fun a b => (compare a b).isLE

/-- Building from segments accepts the valid names and no others. -/
theorem ofSegments_eq_ok_iff {package path : List String} {q : TypeName} :
    ofSegments package path = .ok q ↔ q = ⟨package, path⟩ ∧ q.Valid := by
  unfold ofSegments
  constructor
  · intro h
    simp only at h
    split at h
    · simp at h
    · rename_i hpath
      split at h
      · simp at h
      · rename_i hfind
        obtain rfl : (⟨package, path⟩ : TypeName) = q := by simpa using h
        refine ⟨rfl, hpath, fun s hs => ?_⟩
        simpa using List.find?_eq_none.1 hfind s hs
  · rintro ⟨rfl, hpath, hall⟩
    have hfind : (segments ⟨package, path⟩).find? (!isIdentifier ·) = none :=
      List.find?_eq_none.2 fun s hs => by simp [hall s hs]
    have hpath' : path ≠ [] := hpath
    simp [hpath', hfind]

end TypeName
end JavaUnit
