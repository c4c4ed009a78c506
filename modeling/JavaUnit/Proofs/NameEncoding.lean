import JavaUnit.Proofs.Lexing
import JavaUnit.Proofs.NameReading

/-!
# Names that travel

A name leaves the program in two shapes: as its explicit form, and as a reference in the stream,
which is the explicit form between two marks.  Both come back as the name they were made from, as
long as the name is valid, and nothing but valid names is ever built or read.  So neither shape can
stand for two names (`TypeName.Valid.eq_of_explicit`, `TypeName.Valid.eq_of_encode`).

For the explicit form this is `TypeName.Valid.parse_explicit`.  A reference asks for one thing more:
what stands between the marks must not hold a mark itself, or the stream would be cut elsewhere.  It
does not, since no text that names a type has a mark in it (`TypeName.markFree_of_parse`).

Case plays no part in any of this.  A package that starts with a capital letter and a type that
does not are read back like any other, and so is a name in the default package, whose explicit
form starts with the colon.
-/

namespace JavaUnit
namespace TypeName

variable {q r : TypeName}

/-! ## Between the marks -/

/-- A text that names a type has no mark in it. -/
theorem markFree_of_parse {cs : List Char} (h : parse (String.ofList cs) = .ok q) :
    MarkFree cs := by
  have hfree {c : Char} (hpart : isNamePart c = false) (hspace : Unicode.isWhiteSpace c = false)
      (hne : c ≠ separator) : c ∉ cs := by
    have hmem := notMem_of_parse h hpart hspace hne
    rwa [String.toList_ofList] at hmem
  exact ⟨hfree (isNamePart_eq_false Reference.startMark (by simp)) (by decide) (by decide),
    hfree (isNamePart_eq_false Reference.endMark (by simp)) (by decide) (by decide)⟩

theorem Valid.markFree_explicit (hq : q.Valid) : MarkFree q.explicit.toList := by
  refine markFree_of_parse (q := q) ?_
  rw [String.ofList_toList]
  exact hq.parse_explicit

/-- What stands between the marks of a reference tells its type. -/
theorem Valid.decode_explicit (hq : q.Valid) : Reference.decode q.explicit = .ok q := by
  rw [Reference.decode, hq.parse_explicit]
  rfl

/-! ## One name for each text -/

/-- Two names with one explicit form are one name, as the form is read back as both. -/
theorem Valid.eq_of_explicit (hq : q.Valid) (hr : r.Valid) (h : q.explicit = r.explicit) :
    q = r := by
  have hparse : parse q.explicit = .ok r := by
    rw [h]
    exact hr.parse_explicit
  rw [hq.parse_explicit] at hparse
  exact Except.ok.inj hparse

/-- Two names with one reference are one name: take the marks away. -/
theorem Valid.eq_of_encode (hq : q.Valid) (hr : r.Valid)
    (h : Reference.encode q = Reference.encode r) : q = r := by
  refine hq.eq_of_explicit hr (String.toList_inj.1 ?_)
  have hlist := congrArg String.toList h
  rw [Reference.toList_encode, Reference.toList_encode] at hlist
  exact List.append_cancel_right (List.cons.inj hlist).2

/-- A valid name is built from its own segments. -/
theorem Valid.ofSegments_eq (hq : q.Valid) : ofSegments q.package q.path = .ok q :=
  ofSegments_eq_ok_iff.2 ⟨rfl, hq⟩

/-! ## There and back -/

/-- **Every name that can be built is read back from its explicit form and from a reference.**  The
reference is the explicit form between the two marks, with no mark inside.  So both shapes tell
names apart.  And what is read from any text at all is a name that can be built, which its explicit
form gives again. -/
theorem recovered :
    (∀ package path q, ofSegments package path = .ok q →
      parse q.explicit = .ok q ∧
      (Reference.encode q).toList =
        Reference.startMark :: (q.explicit.toList ++ [Reference.endMark]) ∧
      MarkFree q.explicit.toList ∧ Reference.decode q.explicit = .ok q) ∧
    (∀ package path package' path' q r, ofSegments package path = .ok q →
      ofSegments package' path' = .ok r →
      (q.explicit = r.explicit → q = r) ∧ (Reference.encode q = Reference.encode r → q = r)) ∧
    ∀ text q, parse text = .ok q →
      ofSegments q.package q.path = .ok q ∧ parse q.explicit = .ok q := by
  refine ⟨?_, ?_, ?_⟩
  · intro package path q h
    have hq : q.Valid := (ofSegments_eq_ok_iff.1 h).2
    exact ⟨hq.parse_explicit, Reference.toList_encode q, hq.markFree_explicit, hq.decode_explicit⟩
  · intro package path package' path' q r h h'
    have hq : q.Valid := (ofSegments_eq_ok_iff.1 h).2
    have hr : r.Valid := (ofSegments_eq_ok_iff.1 h').2
    exact ⟨hq.eq_of_explicit hr, hq.eq_of_encode hr⟩
  · intro text q h
    have hq : q.Valid := valid_of_parse h
    exact ⟨hq.ofSegments_eq, hq.parse_explicit⟩

/-- A package that looks like a type with a type that looks like a package, a type of the default
package, and a name read from a text with white space around it. -/
theorem recovered_whatever_case :
    parse (explicit ⟨["Org", "acme"], ["lower", "Inner"]⟩) =
        .ok ⟨["Org", "acme"], ["lower", "Inner"]⟩ ∧
      Reference.decode (explicit ⟨[], ["$x1"]⟩) = .ok ⟨[], ["$x1"]⟩ ∧
      Reference.encode ⟨[], ["a", "b"]⟩ ≠ Reference.encode ⟨["a"], ["b"]⟩ ∧
      parse " a.B \n" = .ok ⟨["a"], ["B"]⟩ ∧
      parse (explicit ⟨["a"], ["B"]⟩) = .ok ⟨["a"], ["B"]⟩ := by
  obtain ⟨hbuilt, happart, hread⟩ := recovered
  have htext : parse " a.B \n" = .ok ⟨["a"], ["B"]⟩ := by decide +kernel
  refine ⟨?_, ?_, ?_, htext, (hread _ _ htext).2⟩
  · exact (hbuilt ["Org", "acme"] ["lower", "Inner"] _ (by decide +kernel)).1
  · exact (hbuilt [] ["$x1"] _ (by decide +kernel)).2.2.2
  · intro h
    have heq := (happart [] ["a", "b"] ["a"] ["b"] _ _ (by decide +kernel)
      (by decide +kernel)).2 h
    exact absurd heq (by decide)

end TypeName
end JavaUnit
