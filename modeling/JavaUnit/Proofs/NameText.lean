import JavaUnit.Reference

/-!
# The characters of a name

A valid name is written with identifier characters and dots, and the explicit form adds one
colon.  So no spelling of a name holds a brace, a quote, a slash or a star
(`isNamePart_eq_false`), and no explicit form holds a mark of a reference.

The dotted name of a type in a named package is longer than its simple name, so the two
spellings of a reference are never the same (`dotted_ne_simpleName`).
-/

namespace JavaUnit

/-- Whether `c` may stand in the dotted name of a type. -/
def isNamePart (c : Char) : Bool :=
  isIdentifierPart c || c == '.'

/-- The characters that move the lexer from one region to another, or open and close blocks,
and the marks of references: none of them stands in a name. -/
theorem isNamePart_eq_false :
    ∀ c ∈ ['{', '}', '/', '*', '"', '\'', '\\', '\n', Reference.startMark, Reference.endMark],
      isNamePart c = false := by
  intro c hc
  simp only [List.mem_cons, List.not_mem_nil, or_false] at hc
  rcases hc with rfl | rfl | rfl | rfl | rfl | rfl | rfl | rfl | rfl | rfl <;> decide +kernel

theorem ne_of_isNamePart {c d : Char} (hc : isNamePart c = true)
    (hd : isNamePart d = false) : c ≠ d := by
  rintro rfl
  rw [hc] at hd
  exact absurd hd (by decide)

/-! ## Dotted text -/

/-- Every character of a dotted path is a dot or belongs to a segment. -/
theorem Text.mem_dotted {segments : List String} {c : Char}
    (h : c ∈ (Text.dotted segments).toList) : c = '.' ∨ ∃ s ∈ segments, c ∈ s.toList := by
  induction segments with
  | nil => simp [Text.dotted] at h
  | cons s rest ih =>
      cases rest with
      | nil =>
          rw [Text.dotted, String.intercalate_singleton] at h
          exact .inr ⟨s, List.mem_cons_self, h⟩
      | cons t rest =>
          rw [Text.dotted, String.intercalate_cons_cons, String.toList_append,
            String.toList_append, List.mem_append, List.mem_append] at h
          rcases h with (h | h) | h
          · exact .inr ⟨s, List.mem_cons_self, h⟩
          · exact .inl (by simpa using h)
          · rcases ih h with hdot | ⟨u, hu, hc⟩
            · exact .inl hdot
            · exact .inr ⟨u, List.mem_cons_of_mem _ hu, hc⟩

/-- Two paths in a row have a dot between them. -/
theorem Text.dotted_append {as bs : List String} (has : as ≠ []) (hbs : bs ≠ []) :
    Text.dotted (as ++ bs) = Text.dotted as ++ "." ++ Text.dotted bs :=
  String.intercalate_append_of_ne_nil has hbs

@[simp] theorem Text.dotted_singleton (s : String) : Text.dotted [s] = s :=
  String.intercalate_singleton

namespace TypeName

variable {q : TypeName}

/-- The simple name of a type is the last segment of its nesting path. -/
theorem simpleName_eq_getLast (h : q.path ≠ []) : q.simpleName = q.path.getLast h := by
  simp [simpleName, List.getLast?_eq_some_getLast h]

/-- The segments end with the simple name. -/
theorem segments_eq_append (h : q.path ≠ []) :
    q.segments = (q.package ++ q.path.dropLast) ++ [q.simpleName] := by
  rw [simpleName_eq_getLast h, List.append_assoc, List.dropLast_concat_getLast h]
  rfl

/-- In a named package something and a dot stand before the simple name. -/
theorem dotted_eq_append (hpackage : q.package ≠ []) (hpath : q.path ≠ []) :
    q.dotted = Text.dotted (q.package ++ q.path.dropLast) ++ "." ++ q.simpleName := by
  have hbefore : q.package ++ q.path.dropLast ≠ [] := by
    intro h
    exact hpackage (List.append_eq_nil_iff.1 h).1
  rw [dotted, segments_eq_append hpath,
    Text.dotted_append hbefore (List.cons_ne_nil _ _), Text.dotted_singleton]

/-- The two spellings of a type in a named package differ. -/
theorem dotted_ne_simpleName (hpackage : q.package ≠ []) (hpath : q.path ≠ []) :
    q.dotted ≠ q.simpleName := by
  intro h
  have hlength := congrArg String.length h
  rw [dotted_eq_append hpackage hpath, String.length_append, String.length_append] at hlength
  have hdot : ".".length = 1 := by decide
  omega

/-! ## Valid names -/

theorem Valid.simpleName_mem (h : q.Valid) : q.simpleName ∈ q.segments := by
  rw [segments_eq_append h.1]
  exact List.mem_append_right _ List.mem_cons_self

theorem Valid.isIdentifier_simpleName (h : q.Valid) : isIdentifier q.simpleName = true :=
  h.2 _ h.simpleName_mem

/-- A segment of a valid name holds name characters only. -/
theorem Valid.isNamePart_of_mem_segment (h : q.Valid) {s : String} (hs : s ∈ q.segments)
    {c : Char} (hc : c ∈ s.toList) : isNamePart c = true := by
  have hpart : isIdentifierPart c = true := isIdentifierPart_of_mem (h.2 s hs) hc
  simp [isNamePart, hpart]

theorem Valid.isNamePart_of_mem_simpleName (h : q.Valid) {c : Char}
    (hc : c ∈ q.simpleName.toList) : isNamePart c = true :=
  h.isNamePart_of_mem_segment h.simpleName_mem hc

theorem Valid.isNamePart_of_mem_dotted (h : q.Valid) {c : Char}
    (hc : c ∈ q.dotted.toList) : isNamePart c = true := by
  rcases Text.mem_dotted hc with rfl | ⟨s, hs, hcs⟩
  · rfl
  · exact h.isNamePart_of_mem_segment hs hcs

/-- The explicit form adds a colon to the characters of the name. -/
theorem Valid.of_mem_explicit (h : q.Valid) {c : Char} (hc : c ∈ q.explicit.toList) :
    isNamePart c = true ∨ c = separator := by
  rw [explicit, String.toList_append, String.toList_push, List.mem_append, List.mem_append] at hc
  have hsegments {segs : List String} (hsub : segs ⊆ q.segments)
      (hmem : c ∈ (Text.dotted segs).toList) : isNamePart c = true := by
    rcases Text.mem_dotted hmem with rfl | ⟨s, hs, hcs⟩
    · rfl
    · exact h.isNamePart_of_mem_segment (hsub hs) hcs
  rcases hc with (hc | hc) | hc
  · exact .inl (hsegments (List.subset_append_left _ _) hc)
  · exact .inr (by simpa using hc)
  · exact .inl (hsegments (List.subset_append_right _ _) hc)

/-- The end mark closes a reference and nothing before it does. -/
theorem Valid.endMark_notMem_explicit (h : q.Valid) :
    Reference.endMark ∉ q.explicit.toList := by
  intro hmem
  rcases h.of_mem_explicit hmem with hpart | hcolon
  · exact ne_of_isNamePart hpart (isNamePart_eq_false Reference.endMark (by simp)) rfl
  · exact absurd hcolon (by decide)

/-- A simple name has a character. -/
theorem Valid.toList_simpleName_ne_nil (h : q.Valid) : q.simpleName.toList ≠ [] := by
  intro hnil
  have hempty : q.simpleName = "" := String.toList_eq_nil_iff.1 hnil
  have hident := h.isIdentifier_simpleName
  rw [hempty, isIdentifier_empty] at hident
  exact absurd hident (by decide)

/-- The dotted name ends with the simple name, so it has a character as well. -/
theorem Valid.toList_dotted_ne_nil (h : q.Valid) : q.dotted.toList ≠ [] := by
  intro hnil
  have hsimple : q.simpleName.toList <:+ q.dotted.toList := by
    by_cases hbefore : q.package ++ q.path.dropLast = []
    · have hdotted : q.dotted = q.simpleName := by
        rw [dotted, segments_eq_append h.1, hbefore, List.nil_append, Text.dotted_singleton]
      exact hdotted ▸ List.suffix_refl _
    · rw [dotted, segments_eq_append h.1, Text.dotted_append hbefore (List.cons_ne_nil _ _),
        Text.dotted_singleton, String.toList_append]
      exact List.suffix_append _ _
  rw [hnil, List.suffix_nil] at hsimple
  exact h.toList_simpleName_ne_nil hsimple

/-- What is read from a text is a valid name. -/
theorem valid_of_parse {text : String} (h : parse text = .ok q) : q.Valid := by
  unfold parse at h
  simp only at h
  split at h
  · exact absurd h (by simp)
  · split at h
    · split at h
      · exact absurd h (by simp)
      · exact (ofSegments_eq_ok_iff.1 h).2
    · split at h
      · exact absurd h (by simp)
      · exact (ofSegments_eq_ok_iff.1 h).2

end TypeName
end JavaUnit
