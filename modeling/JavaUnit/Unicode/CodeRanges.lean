/-!
# Sets of code points

A class of characters is a list of closed ranges of code points.  The ranges ascend and
do not touch, so membership stops at the first range that starts beyond the code point:
a test on a letter of the Latin alphabet looks at three ranges and no more.

`covers_iff` says that stopping early loses nothing.
-/

namespace JavaUnit
namespace Unicode

/-- The first and the last code point of a run of code points. -/
abbrev CodeRange := Nat × Nat

namespace CodeRange

/-- Ranges in ascending order, none empty and no two overlapping. -/
def Ascending : List CodeRange → Prop
  | [] => True
  | [r] => r.1 ≤ r.2
  | r :: s :: rest => r.1 ≤ r.2 ∧ r.2 < s.1 ∧ Ascending (s :: rest)

instance : (rs : List CodeRange) → Decidable (Ascending rs)
  | [] => .isTrue trivial
  | [r] => inferInstanceAs (Decidable (r.1 ≤ r.2))
  | r :: s :: rest =>
      have := instDecidableAscending (s :: rest)
      inferInstanceAs (Decidable (r.1 ≤ r.2 ∧ r.2 < s.1 ∧ Ascending (s :: rest)))

/-- Whether the code point `n` lies in one of the ascending ranges `rs`. -/
def covers : List CodeRange → Nat → Bool
  | [], _ => false
  | r :: rest, n => if n < r.1 then false else n ≤ r.2 || covers rest n

theorem Ascending.tail {r : CodeRange} {rest : List CodeRange}
    (h : Ascending (r :: rest)) : Ascending rest := by
  cases rest with
  | nil => trivial
  | cons s rest => exact h.2.2

/-- Past the first range of an ascending list, everything is larger. -/
theorem Ascending.lt_of_mem {r s : CodeRange} {rest : List CodeRange}
    (h : Ascending (r :: rest)) (hs : s ∈ rest) : r.2 < s.1 := by
  induction rest generalizing r with
  | nil => cases hs
  | cons t rest ih =>
      obtain ⟨_, hrt, ht⟩ := h
      rcases List.mem_cons.1 hs with rfl | hs
      · exact hrt
      · have hle : t.1 ≤ t.2 := by
          cases rest with
          | nil => exact ht
          | cons _ _ => exact ht.1
        have := ih ht hs
        omega

/-- Stopping at the first range beyond the code point loses nothing. -/
theorem covers_iff {rs : List CodeRange} (h : Ascending rs) (n : Nat) :
    covers rs n = true ↔ ∃ r ∈ rs, r.1 ≤ n ∧ n ≤ r.2 := by
  induction rs with
  | nil => simp [covers]
  | cons r rest ih =>
      have hr : r.1 ≤ r.2 := by
        cases rest with
        | nil => exact h
        | cons _ _ => exact h.1
      have hrest := ih h.tail
      by_cases hn : n < r.1
      · have hbeyond : ∀ s ∈ rest, ¬ (s.1 ≤ n ∧ n ≤ s.2) := by
          intro s hs ⟨hsn, _⟩
          have := h.lt_of_mem hs
          omega
        simp only [covers, hn, if_true, Bool.false_eq_true, List.mem_cons, false_iff]
        rintro ⟨s, rfl | hs, hsn⟩
        · omega
        · exact hbeyond s hs hsn
      · simp only [covers, hn, if_false, Bool.or_eq_true, decide_eq_true_eq, hrest,
          List.mem_cons]
        constructor
        · rintro (hn' | ⟨s, hs, hsn⟩)
          · exact ⟨r, .inl rfl, by omega, hn'⟩
          · exact ⟨s, .inr hs, hsn⟩
        · rintro ⟨s, rfl | hs, hsn⟩
          · exact .inl hsn.2
          · exact .inr ⟨s, hs, hsn⟩

end CodeRange
end Unicode
end JavaUnit
