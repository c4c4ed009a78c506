import JavaUnit.EmitError
import Std.Data.ExtTreeMap

/-!
# Who owns a simple name

In a unit every simple name stands for one type at most.  The scope records which, and it
only grows: a name once claimed is never released and never passes to another type.

There are two kinds of claim.  A *reservation* is made before anything is written, for the
generated type and its companions; two of them for one simple name are an error.  Any other
claim *binds* the name on first use, and a type that comes too late is spelled in full.
-/

namespace JavaUnit

/-- The type that a simple name stands for, and how firmly. -/
structure Binding where
  owner : TypeName
  /-- Whether the name was reserved before anything was written. -/
  reserved : Bool
  deriving DecidableEq, Repr

/-- How a type stands to its simple name. -/
inductive Standing where
  /-- Nobody claims the simple name. -/
  | free
  /-- The simple name stands for this type. -/
  | owned
  /-- The simple name stands for another type. -/
  | taken
  deriving DecidableEq, Repr

/-- The simple names of a unit with the types they stand for. -/
structure Scope where
  entries : Std.ExtTreeMap String Binding := ∅

namespace Scope

/-- The scope in which nothing is claimed. -/
def empty : Scope := {}

/-- What `simple` stands for. -/
def binding? (s : Scope) (simple : String) : Option Binding :=
  s.entries[simple]?

/-- Whether `simple` stands for any type. -/
def isClaimed (s : Scope) (simple : String) : Bool :=
  (s.binding? simple).isSome

/-- All bindings, in the order of the simple names. -/
def toList (s : Scope) : List (String × Binding) :=
  s.entries.toList

/-- The number of simple names that are claimed. -/
def size (s : Scope) : Nat :=
  s.entries.size

/-- How `q` stands to its simple name. -/
def standing (s : Scope) (q : TypeName) : Standing :=
  match s.binding? q.simpleName with
  | none => .free
  | some b => if b.owner = q then .owned else .taken

/-- Lets the simple name of `q` stand for `q`. -/
def claim (s : Scope) (q : TypeName) (reserved : Bool) : Scope :=
  ⟨s.entries.insert q.simpleName ⟨q, reserved⟩⟩

/-- Reserves the simple name of `q`.  A type that owns its name already becomes its reserved
owner; a name that stands for another type cannot be had. -/
def reserve (s : Scope) (q : TypeName) : Except EmitError Scope :=
  match s.binding? q.simpleName with
  | none => .ok (s.claim q true)
  | some b => if b.owner = q then .ok (s.claim q true) else .error (.reservedConflict b.owner q)

/-- Claims the simple name of `q` if it is free, and says whether it stands for `q` now. -/
def declare (s : Scope) (q : TypeName) : Bool × Scope :=
  match s.standing q with
  | .free => (true, s.claim q false)
  | .owned => (true, s)
  | .taken => (false, s)

/-- Claims the free simple names among those of `names`, earlier names first. -/
def declareAll (s : Scope) (names : List TypeName) : Scope :=
  names.foldl (fun s q => (s.declare q).2) s

/-- The spelling of a reference to `q`: its simple name if that is free or stands for `q`,
claiming it, and the dotted name otherwise. -/
def spell (s : Scope) (q : TypeName) : String × Scope :=
  match s.declare q with
  | (true, s) => (q.simpleName, s)
  | (false, s) => (q.dotted, s)

@[simp] theorem binding?_empty (simple : String) : empty.binding? simple = none := by
  simp [empty, binding?]

/-- A claim changes what one simple name stands for. -/
theorem binding?_claim (s : Scope) (q : TypeName) (reserved : Bool) (simple : String) :
    (s.claim q reserved).binding? simple =
      if q.simpleName = simple then some ⟨q, reserved⟩ else s.binding? simple := by
  simp [claim, binding?, Std.ExtTreeMap.getElem?_insert]

/-- A claim adds a binding unless the simple name has one already. -/
theorem size_claim (s : Scope) (q : TypeName) (reserved : Bool) :
    (s.claim q reserved).size = if s.isClaimed q.simpleName then s.size else s.size + 1 := by
  have hclaimed : s.isClaimed q.simpleName = s.entries.contains q.simpleName :=
    Std.ExtTreeMap.contains_eq_isSome_getElem?.symm
  rw [hclaimed]
  exact Std.ExtTreeMap.size_insert

/-- Two scopes in which every simple name stands for the same are the same. -/
theorem ext {s t : Scope} (h : ∀ simple, s.binding? simple = t.binding? simple) : s = t := by
  obtain ⟨s⟩ := s
  obtain ⟨t⟩ := t
  exact congrArg Scope.mk (Std.ExtTreeMap.ext_getElem? h)

/-- The listing shows exactly the claims. -/
theorem mem_toList_iff {s : Scope} {simple : String} {b : Binding} :
    (simple, b) ∈ s.toList ↔ s.binding? simple = some b :=
  Std.ExtTreeMap.mem_toList_iff_getElem?_eq_some

/-- The listing goes up in the simple names, so none comes twice. -/
theorem pairwise_toList (s : Scope) : s.toList.Pairwise fun a b => a.1 < b.1 := by
  refine Std.ExtTreeMap.ordered_keys_toList.imp ?_
  intro a b h
  exact compareOfLessAndEq_eq_lt.1 h

end Scope
end JavaUnit
