/-!
# Dotted text

A dotted path is written with `.` between its segments.  Splitting at the dots always
gives at least one segment, possibly empty; only `segments` reads the empty text as the
path that has none.

`join_split` says that splitting and joining lose nothing.
-/

namespace JavaUnit
namespace Text

/-- The pieces of the text between the occurrences of `separator`. -/
def split (separator : Char) : List Char → List (List Char)
  | [] => [[]]
  | c :: rest =>
      if c = separator then [] :: split separator rest
      else (split separator rest).modifyHead (c :: ·)

/-- The segments of a dotted path, none for the empty text. -/
def segments (cs : List Char) : List String :=
  if cs = [] then [] else (split '.' cs).map String.ofList

/-- The segments written with a dot between any two of them. -/
def dotted (segments : List String) : String :=
  ".".intercalate segments

@[simp] theorem split_nil (separator : Char) : split separator [] = [[]] := rfl

@[simp] theorem split_cons_self (separator : Char) (rest : List Char) :
    split separator (separator :: rest) = [] :: split separator rest := by
  simp [split]

theorem split_cons_of_ne {separator c : Char} (h : c ≠ separator) (rest : List Char) :
    split separator (c :: rest) = (split separator rest).modifyHead (c :: ·) := by
  simp [split, h]

theorem split_ne_nil (separator : Char) (cs : List Char) : split separator cs ≠ [] := by
  induction cs with
  | nil => simp
  | cons c rest ih =>
      by_cases h : c = separator
      · simp [split, h]
      · rw [split_cons_of_ne h]
        cases hs : split separator rest with
        | nil => exact absurd hs ih
        | cons s ss => simp

/-- No piece holds the separator. -/
theorem not_mem_of_mem_split {separator : Char} {cs piece : List Char}
    (h : piece ∈ split separator cs) : separator ∉ piece := by
  induction cs generalizing piece with
  | nil => simp_all
  | cons c rest ih =>
      by_cases hc : c = separator
      · subst hc
        rw [split_cons_self, List.mem_cons] at h
        rcases h with rfl | h
        · simp
        · exact ih h
      · rw [split_cons_of_ne hc] at h
        cases hs : split separator rest with
        | nil => exact absurd hs (split_ne_nil _ _)
        | cons s ss =>
            rw [hs, List.modifyHead_cons, List.mem_cons] at h
            rcases h with rfl | h
            · have := @ih s (by simp [hs])
              simp [this, Ne.symm hc]
            · exact ih (by simp [hs, h])

/-- Splitting and joining again lose nothing. -/
theorem join_split (separator : Char) (cs : List Char) :
    [separator].intercalate (split separator cs) = cs := by
  induction cs with
  | nil => rfl
  | cons c rest ih =>
      cases hs : split separator rest with
      | nil => exact absurd hs (split_ne_nil _ _)
      | cons s ss =>
          rw [hs] at ih
          by_cases hc : c = separator
          · subst hc
            rw [split_cons_self, hs, ← ih]
            simp [List.intercalate]
          · rw [split_cons_of_ne hc, hs, ← ih]
            cases ss <;> simp [List.intercalate]

@[simp] theorem segments_nil : segments [] = [] := rfl

@[simp] theorem dotted_nil : dotted [] = "" := rfl

/-! ## Cutting at the first separator -/

section

variable {separator : Char} {before : List Char}

theorem ne_of_mem_before (h : separator ∉ before) :
    ∀ c ∈ before, decide (c ≠ separator) = true := by
  intro c hc
  refine decide_eq_true fun heq => h ?_
  rwa [← heq]

theorem takeWhile_before (h : separator ∉ before) (after : List Char) :
    (before ++ separator :: after).takeWhile (· ≠ separator) = before := by
  rw [List.takeWhile_append_of_pos (ne_of_mem_before h)]
  simp

theorem tail_dropWhile_before (h : separator ∉ before) (after : List Char) :
    ((before ++ separator :: after).dropWhile (· ≠ separator)).tail = after := by
  rw [List.dropWhile_append_of_pos (ne_of_mem_before h)]
  simp

end

end Text
end JavaUnit
