import JavaUnit.Proofs.NameGrammar

/-!
# Dotted names read back

The dotted name of a type does not say where its package ends.  When it is read, the end of the
package is guessed from the custom that types start with a capital letter and packages do not.  A
name that keeps to the custom (`TypeName.Conventional`) is read as itself, and no other is
(`TypeName.Valid.parse_dotted_eq_ok_iff`).

What becomes of the others is seen from the segments.  They come back as they were, because none of
them has a dot in it, and only the place between package and nesting path can be another one
(`TypeName.Valid.cutInto_dotted_iff`).  With a capital letter somewhere there is such a place, and a
name of the same dotted text is read, which has the same last segment.  Without one nothing is taken
for a type.
-/

namespace JavaUnit
namespace TypeName

open Text

variable {q r : TypeName}

/-- The name keeps to the custom: no segment of the package starts with a capital letter, and the
outermost type does. -/
structure Conventional (q : TypeName) : Prop where
  package : ∀ s ∈ q.package, startsUppercase s = false
  outermost : ∃ s, q.outermost? = some s ∧ startsUppercase s = true

/-- There is no white space in a dotted name. -/
theorem Valid.trim_dotted (hq : q.Valid) : trim q.dotted.toList = q.dotted.toList :=
  trim_eq_self fun _ hc => isWhiteSpace_of_isNamePart (hq.isNamePart_of_mem_dotted hc)

/-- A dotted name has no colon in it, so it is never taken for an explicit form. -/
theorem Valid.separator_notMem_dotted (hq : q.Valid) : separator ∉ q.dotted.toList := by
  intro hmem
  rcases mem_dotted hmem with hdot | ⟨s, hs, hc⟩
  · exact absurd hdot (by decide)
  · exact notMem_of_isIdentifier (hq.2 s hs) isIdentifierPart_separator hc

theorem Valid.dottedPath_dotted_iff (hq : q.Valid) {segs : List String} :
    DottedPath q.dotted.toList segs ↔ segs = q.segments := by
  rw [dottedPath_iff, dotted, segments_dotted_of_isIdentifier hq.2, eq_comm]

/-- **What a dotted name is cut into has the segments of the name**, with the cut in front of the
first of them that starts with a capital letter. -/
theorem Valid.cutInto_dotted_iff (hq : q.Valid) :
    CutInto q.dotted.toList r ↔
      r.segments = q.segments ∧ (∀ s ∈ r.package, startsUppercase s = false) ∧
        ∀ s ∈ r.path.head?, startsUppercase s = true := by
  constructor
  · intro hcut
    cases hcut with
    | explicit hsplit hfirst hpackage hpath =>
        refine absurd ?_ hq.separator_notMem_dotted
        rw [hsplit]
        simp
    | conventional hcolon hsegments hpackage hpath =>
        exact ⟨hq.dottedPath_dotted_iff.1 hsegments, hpackage, hpath⟩
  · rintro ⟨hsegments, hpackage, hpath⟩
    exact .conventional hq.separator_notMem_dotted (hq.dottedPath_dotted_iff.2 hsegments) hpackage
      hpath

/-- A name with the segments of a valid one is valid, wherever its package ends, unless it has no
nesting path. -/
theorem Valid.of_segments_eq (hq : q.Valid) (hsegments : r.segments = q.segments)
    (hpath : r.path ≠ []) : r.Valid :=
  ⟨hpath, fun s hs => hq.2 s (hsegments ▸ hs)⟩

/-- The dotted name is read as the name itself exactly if the name keeps to the custom. -/
theorem Valid.parse_dotted_eq_ok_iff (hq : q.Valid) : parse q.dotted = .ok q ↔ q.Conventional := by
  have hne : trim q.dotted.toList ≠ [] := by
    rw [hq.trim_dotted]
    exact hq.toList_dotted_ne_nil
  rw [parse_eq_ok_iff hne, hq.trim_dotted, hq.cutInto_dotted_iff]
  constructor
  · rintro ⟨⟨-, hpackage, hpath⟩, -⟩
    have hs := List.head?_eq_some_head hq.1
    exact ⟨hpackage, _, hs, hpath _ hs⟩
  · rintro ⟨hpackage, s, hs, hupper⟩
    refine ⟨⟨rfl, hpackage, fun t ht => ?_⟩, hq⟩
    rw [outermost?, Option.mem_def.1 ht] at hs
    rw [Option.some.inj hs]
    exact hupper

/-- **When the dotted name of a type can be read back.**  It is read as the type itself exactly if
no segment of the package starts with a capital letter and the outermost type does.  Of the other
types those without any capital letter at the start of a segment are refused, as they name no type,
and the rest are read as another type, which has the same dotted name and the same simple name. -/
theorem Valid.parse_dotted (hq : q.Valid) :
    (parse q.dotted = .ok q ↔ q.Conventional) ∧
      (¬q.Conventional → (∀ s ∈ q.segments, startsUppercase s = false) →
        parse q.dotted = .error (.noType q.dotted)) ∧
      (¬q.Conventional → (∃ s ∈ q.segments, startsUppercase s = true) →
        ∃ r, parse q.dotted = .ok r ∧ r.Valid ∧ r ≠ q ∧ r.dotted = q.dotted ∧
          r.simpleName = q.simpleName) := by
  have htrim := hq.trim_dotted
  have hne : trim q.dotted.toList ≠ [] := by
    rw [htrim]
    exact hq.toList_dotted_ne_nil
  obtain ⟨r, hcut⟩ := exists_cutInto (trim q.dotted.toList)
  have hparse := hcut.parse_eq hne
  rw [htrim, hq.cutInto_dotted_iff] at hcut
  obtain ⟨hsegments, hpackage, hpath⟩ := hcut
  refine ⟨hq.parse_dotted_eq_ok_iff, ?_, ?_⟩
  · intro _ hlower
    have hnil : r.path = [] := by
      by_contra hcons
      have hupper := hpath _ (List.head?_eq_some_head hcons)
      have hmem : r.path.head hcons ∈ q.segments := by
        rw [← hsegments]
        exact List.mem_append_right _ (List.head_mem hcons)
      exact absurd (hupper.symm.trans (hlower _ hmem)) (by decide)
    rw [hparse, if_pos hnil, htrim, String.ofList_toList]
  · rintro hunconventional ⟨s, hs, hupper⟩
    have hcons : r.path ≠ [] := by
      intro hnil
      rw [← hsegments, segments, hnil, List.append_nil] at hs
      exact absurd (hupper.symm.trans (hpackage s hs)) (by decide)
    have hr : r.Valid := hq.of_segments_eq hsegments hcons
    have hok : parse q.dotted = .ok r := by
      rw [hparse, if_neg hcons]
      exact ofSegments_eq_ok_iff.2 ⟨rfl, hr⟩
    have hdotted : r.dotted = q.dotted := congrArg Text.dotted hsegments
    refine ⟨r, hok, hr, ?_, hdotted, hr.simpleName_eq_of_dotted hq hdotted⟩
    rintro rfl
    exact hunconventional (hr.parse_dotted_eq_ok_iff.1 hok)

/-- A member in lower case is read back, a package with a capital letter is taken for a type, and a
name all in lower case is refused. -/
theorem Valid.parse_dotted_custom :
    parse (dotted ⟨["com", "example"], ["Outer", "inner"]⟩) =
        .ok ⟨["com", "example"], ["Outer", "inner"]⟩ ∧
      (∃ r, parse (dotted ⟨["com", "Example"], ["Widget"]⟩) = .ok r ∧ r.Valid ∧
        r ≠ ⟨["com", "Example"], ["Widget"]⟩ ∧
        r.dotted = dotted ⟨["com", "Example"], ["Widget"]⟩ ∧ r.simpleName = "Widget") ∧
      parse (dotted ⟨["org"], ["acme"]⟩) = .error (.noType "org.acme") := by
  have hmember : Valid ⟨["com", "example"], ["Outer", "inner"]⟩ := by decide +kernel
  have hpackage : Valid ⟨["com", "Example"], ["Widget"]⟩ := by decide +kernel
  have hlower : Valid ⟨["org"], ["acme"]⟩ := by decide +kernel
  refine ⟨hmember.parse_dotted.1.2 ⟨by decide +kernel, "Outer", rfl, by decide +kernel⟩, ?_, ?_⟩
  · refine hpackage.parse_dotted.2.2 (fun h => ?_) ⟨"Example", by decide, by decide +kernel⟩
    exact absurd (h.package "Example" (by decide)) (by decide +kernel)
  · refine hlower.parse_dotted.2.1 (fun h => ?_) (by decide +kernel)
    obtain ⟨s, hs, hupper⟩ := h.outermost
    obtain rfl : "acme" = s := Option.some.inj hs
    exact absurd hupper (by decide +kernel)

end TypeName
end JavaUnit
