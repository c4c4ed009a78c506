import Std.Data.ExtTreeMap

/-!
# Features

Named settings that a unit carries along for whoever decides what to write into it.  Nothing
here interprets them.  The last value given for a name wins, and listings are in the order
of the names.
-/

namespace JavaUnit

/-- Names of features with their values. -/
structure Features where
  values : Std.ExtTreeMap String String := ∅

namespace Features

/-- No feature is set. -/
def empty : Features := {}

/-- Sets a feature. -/
def set (f : Features) (name value : String) : Features :=
  ⟨f.values.insert name value⟩

/-- Sets a feature to `true`. -/
def enable (f : Features) (name : String) : Features :=
  f.set name "true"

/-- The features set one after the other. -/
def ofList (settings : List (String × String)) : Features :=
  settings.foldl (fun f setting => f.set setting.1 setting.2) empty

/-- The value of a feature. -/
def get? (f : Features) (name : String) : Option String :=
  f.values[name]?

/-- Whether a feature is set to `true`. -/
def isEnabled (f : Features) (name : String) : Bool :=
  f.get? name == some "true"

/-- Whether no feature is set. -/
def isEmpty (f : Features) : Bool :=
  f.values.isEmpty

/-- All features in the order of their names. -/
def toList (f : Features) : List (String × String) :=
  f.values.toList

@[simp] theorem get?_empty (name : String) : empty.get? name = none := by
  simp [empty, get?]

/-- The last value wins. -/
theorem get?_set (f : Features) (name value other : String) :
    (f.set name value).get? other = if name = other then some value else f.get? other := by
  simp [set, get?, Std.ExtTreeMap.getElem?_insert]

@[simp] theorem isEnabled_enable (f : Features) (name : String) :
    (f.enable name).isEnabled name = true := by
  simp [enable, isEnabled, get?_set]

end Features
end JavaUnit
