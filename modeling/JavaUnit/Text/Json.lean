import Std.Data.ExtTreeMap

/-!
# JSON

JSON values, as far as there is a use for them here, and their text.

The fields of an object stand in the order of their keys, in whatever order they were given, and
no key has more than one of them: a field that is given again replaces the one before
(`Json.object`).

The text is indented by two spaces for every level, with a value or field to a line, and an empty
list or object is a pair of brackets.  Control characters in strings are escaped, by their short
names where JSON has one, and everything else stands as it is.
-/

namespace JavaUnit
namespace Text

/-- A JSON value. -/
inductive Json where
  | bool (b : Bool)
  | num (n : Nat)
  | str (s : String)
  | arr (items : List Json)
  | obj (fields : List (String × Json))

namespace Json

/-! ## Objects -/

/-- The object with these fields. -/
def object (fields : List (String × Json)) : Json :=
  obj (Std.ExtTreeMap.ofList fields).toList

/-- The keys of an object, in their order. -/
def keys : Json → List String
  | obj fields => fields.map Prod.fst
  | _ => []

/-- What an object has for the key. -/
def field? (j : Json) (key : String) : Option Json :=
  match j with
  | obj fields => fields.lookup key
  | _ => none

theorem mem_keys_object {fields : List (String × Json)} {key : String} :
    key ∈ (object fields).keys ↔ key ∈ fields.map Prod.fst := by
  rw [object, keys, Std.ExtTreeMap.map_fst_toList_eq_keys, Std.ExtTreeMap.mem_keys,
    Std.ExtTreeMap.mem_ofList, List.contains_iff_mem]

/-- The keys of an object go up, so none of them comes twice. -/
theorem pairwise_keys_object (fields : List (String × Json)) :
    (object fields).keys.Pairwise (· < ·) := by
  rw [object, keys, Std.ExtTreeMap.map_fst_toList_eq_keys]
  refine Std.ExtTreeMap.ordered_keys.imp ?_
  intro a b h
  exact compareOfLessAndEq_eq_lt.1 h

/-- An object has the fields it is made of, if their keys are different. -/
theorem field?_object {fields : List (String × Json)} {key : String} {value : Json}
    (hkeys : (fields.map Prod.fst).Nodup) (h : (key, value) ∈ fields) :
    (object fields).field? key = some value := by
  have hdistinct : fields.Pairwise fun a b => ¬compare a.1 b.1 = .eq :=
    (List.pairwise_map.1 hkeys).imp fun hne heq => hne (Std.LawfulEqCmp.eq_of_compare heq)
  have hentry : (key, value) ∈ (Std.ExtTreeMap.ofList fields).toList := by
    rw [Std.ExtTreeMap.mem_toList_iff_getElem?_eq_some]
    exact Std.ExtTreeMap.getElem?_ofList_of_mem Std.ReflCmp.compare_self hdistinct h
  have hordered : (Std.ExtTreeMap.ofList fields).toList.Pairwise fun a b => a.1 ≠ b.1 := by
    refine Std.ExtTreeMap.distinct_keys_toList.imp ?_
    intro a b hne heq
    exact hne (Std.LawfulEqCmp.compare_eq_iff_eq.2 heq)
  obtain ⟨before, after, hsplit⟩ := List.append_of_mem hentry
  rw [object, field?, List.lookup_eq_some_iff]
  refine ⟨before, after, hsplit, fun entry hentry => ?_⟩
  rw [hsplit, List.pairwise_append] at hordered
  exact bne_iff_ne.2 (hordered.2.2 entry hentry _ List.mem_cons_self).symm

/-! ## Text -/

/-- A digit of a number below sixteen. -/
def hexDigit (n : Nat) : Char :=
  if n < 10 then Char.ofNat ('0'.toNat + n) else Char.ofNat ('a'.toNat + (n - 10))

/-- The characters that are escaped by a name, with their names. -/
def shortNames : List (Char × Char) :=
  [('"', '"'), ('\\', '\\'), ('\x08', 'b'), ('\x0c', 'f'), ('\n', 'n'), ('\r', 'r'), ('\t', 't')]

/-- The characters that stand for `c` in a string. -/
def escape (c : Char) : List Char :=
  match shortNames.lookup c with
  | some name => ['\\', name]
  | none =>
      if c.toNat < 32 then
        ['\\', 'u', '0', '0', hexDigit (c.toNat / 16), hexDigit (c.toNat % 16)]
      else [c]

/-- The text of a string. -/
def quoted (s : String) : String :=
  String.ofList ('"' :: s.toList.flatMap escape ++ ['"'])

/-- The space in front of a line on this level. -/
def margin (level : Nat) : String :=
  String.ofList (List.replicate (2 * level) ' ')

/-- Lines of the next level between two brackets that stand on this level. -/
def bracketed (opening closing : Char) (level : Nat) (lines : List String) : String :=
  match lines with
  | [] => String.ofList [opening, closing]
  | lines =>
      opening.toString ++ "\n" ++ ",\n".intercalate (lines.map (margin (level + 1) ++ ·)) ++
        "\n" ++ margin level ++ closing.toString

mutual

/-- The text of a value that stands on this level. -/
def print (level : Nat) : Json → String
  | bool b => if b then "true" else "false"
  | num n => n.repr
  | str s => quoted s
  | arr items => bracketed '[' ']' level (printItems (level + 1) items)
  | obj fields => bracketed '\x7b' '\x7d' level (printFields (level + 1) fields)

/-- The texts of the values of a list. -/
def printItems (level : Nat) : List Json → List String
  | [] => []
  | item :: rest => print level item :: printItems level rest

/-- The texts of the fields of an object. -/
def printFields (level : Nat) : List (String × Json) → List String
  | [] => []
  | (key, value) :: rest => (quoted key ++ ": " ++ print level value) :: printFields level rest

end

theorem printItems_eq (level : Nat) (items : List Json) :
    printItems level items = items.map (print level) := by
  induction items with
  | nil => rfl
  | cons item rest ih => exact congrArg (print level item :: ·) ih

theorem printFields_eq (level : Nat) (fields : List (String × Json)) :
    printFields level fields =
      fields.map fun field => quoted field.1 ++ ": " ++ print level field.2 := by
  induction fields with
  | nil => rfl
  | cons field rest ih =>
      exact congrArg ((quoted field.1 ++ ": " ++ print level field.2) :: ·) ih

/-- The text of a value. -/
def pretty (j : Json) : String :=
  print 0 j

end Json
end Text
end JavaUnit
