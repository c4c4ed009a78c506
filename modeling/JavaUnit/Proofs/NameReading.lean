import JavaUnit.Proofs.NameText
import Mathlib.Data.List.TakeDrop

/-!
# Names read back

A name that is written down can be read again.  Splitting a dotted path at its dots gives the
segments it was joined from, as long as they are identifiers (`Text.segments_dotted`), so the
dotted name tells the segments of a valid name and only leaves open where the package ends
(`TypeName.Valid.segments_eq_of_dotted`).  The explicit form marks that place with a colon, and
reading it gives the name itself (`TypeName.Valid.parse_explicit`).

The other way around, a text that is read as a name holds nothing but the characters of names,
one colon at most, and white space at its ends (`TypeName.of_mem_trim_of_parse`).

White space is what makes the first part more than a matter of lists: reading trims the text,
and the trimming must leave the name alone.  It does because no letter and no number is white
space, which is a fact about the Unicode tables (`isWhiteSpace_of_isNamePart`).
-/

namespace JavaUnit

/-! ## White space and names -/

/-- Two classes of which no two ranges meet have no character in common. -/
theorem Unicode.CodeRange.covers_eq_false {rs ss : List Unicode.CodeRange}
    (hrs : Ascending rs) (hss : Ascending ss)
    (hapart : ∀ r ∈ rs, ∀ s ∈ ss, r.2 < s.1 ∨ s.2 < r.1) {n : Nat} (hn : covers rs n = true) :
    covers ss n = false := by
  obtain ⟨r, hr, hrn⟩ := (covers_iff hrs n).1 hn
  refine Bool.eq_false_iff.2 fun hcovers => ?_
  obtain ⟨s, hs, hsn⟩ := (covers_iff hss n).1 hcovers
  have := hapart r hr s hs
  omega

open Unicode

theorem isAlphabetic_of_isWhiteSpace {c : Char} (h : isWhiteSpace c = true) :
    isAlphabetic c = false :=
  CodeRange.covers_eq_false ascending_whiteSpaceRanges ascending_alphabeticRanges
    (by decide +kernel) h

theorem isNumeric_of_isWhiteSpace {c : Char} (h : isWhiteSpace c = true) :
    isNumeric c = false :=
  CodeRange.covers_eq_false ascending_whiteSpaceRanges ascending_numericRanges
    (by decide +kernel) h

/-- No character of a name is white space. -/
theorem isWhiteSpace_of_isNamePart {c : Char} (h : isNamePart c = true) :
    isWhiteSpace c = false := by
  refine Bool.eq_false_iff.2 fun hspace => ?_
  simp only [isNamePart, isIdentifierPart, isAlphabetic_of_isWhiteSpace hspace,
    isNumeric_of_isWhiteSpace hspace, Bool.false_or, Bool.or_eq_true, beq_iff_eq] at h
  rcases h with (rfl | rfl) | rfl <;> exact absurd hspace (by decide)

/-! ## Trimming -/

namespace Text

/-- Text without white space is not trimmed. -/
theorem trim_eq_self {cs : List Char} (h : ∀ c ∈ cs, isWhiteSpace c = false) : trim cs = cs := by
  have hstart {ds : List Char} (hds : ∀ c ∈ ds, isWhiteSpace c = false) : trimStart ds = ds := by
    cases ds with
    | nil => rfl
    | cons d ds => exact trimStart_cons_of_not (hds d List.mem_cons_self)
  have hreverse : ∀ c ∈ cs.reverse, isWhiteSpace c = false := fun c hc =>
    h c (List.mem_reverse.1 hc)
  rw [trim, hstart h, trimEnd, hstart hreverse, List.reverse_reverse]

/-- Trimming takes away nothing but white space. -/
theorem mem_trim_of_mem {c : Char} {cs : List Char} (hc : isWhiteSpace c = false) (h : c ∈ cs) :
    c ∈ trim cs := by
  have hstart {ds : List Char} (hds : c ∈ ds) : c ∈ trimStart ds := by
    induction ds with
    | nil => exact absurd hds List.not_mem_nil
    | cons d ds ih =>
        cases hd : isWhiteSpace d with
        | false => rwa [trimStart_cons_of_not hd]
        | true =>
            rw [trimStart_cons_of hd]
            rcases List.mem_cons.1 hds with rfl | hds
            · rw [hd] at hc
              exact absurd hc (by decide)
            · exact ih hds
  exact List.mem_reverse.2 (hstart (List.mem_reverse.2 (hstart h)))

/-! ## Splitting -/

theorem split_of_notMem {separator : Char} {cs : List Char} (h : separator ∉ cs) :
    split separator cs = [cs] := by
  induction cs with
  | nil => rfl
  | cons c cs ih =>
      rw [List.mem_cons, not_or] at h
      rw [split_cons_of_ne (Ne.symm h.1), ih h.2, List.modifyHead_cons]

theorem split_append_cons {separator : Char} {cs : List Char} (h : separator ∉ cs)
    (rest : List Char) :
    split separator (cs ++ separator :: rest) = cs :: split separator rest := by
  induction cs with
  | nil => exact split_cons_self separator rest
  | cons c cs ih =>
      rw [List.mem_cons, not_or] at h
      rw [List.cons_append, split_cons_of_ne (Ne.symm h.1), ih h.2, List.modifyHead_cons]

/-- Apart from the separator every character gets into a piece. -/
theorem exists_mem_split {separator c : Char} {cs : List Char} (h : c ∈ cs) (hc : c ≠ separator) :
    ∃ piece ∈ split separator cs, c ∈ piece := by
  induction cs with
  | nil => exact absurd h List.not_mem_nil
  | cons d rest ih =>
      by_cases hd : d = separator
      · subst hd
        obtain ⟨piece, hpiece, hcpiece⟩ := ih (List.mem_of_ne_of_mem hc h)
        rw [split_cons_self]
        exact ⟨piece, List.mem_cons_of_mem _ hpiece, hcpiece⟩
      · rw [split_cons_of_ne hd]
        cases hs : split separator rest with
        | nil => exact absurd hs (split_ne_nil _ _)
        | cons s ss =>
            rw [List.modifyHead_cons]
            rcases List.mem_cons.1 h with rfl | h
            · exact ⟨c :: s, List.mem_cons_self, List.mem_cons_self⟩
            · obtain ⟨piece, hpiece, hcpiece⟩ := ih h
              rw [hs] at hpiece
              rcases List.mem_cons.1 hpiece with rfl | hpiece
              · exact ⟨d :: piece, List.mem_cons_self, List.mem_cons_of_mem _ hcpiece⟩
              · exact ⟨piece, List.mem_cons_of_mem _ hpiece, hcpiece⟩

/-- Apart from the dots every character of a path gets into a segment. -/
theorem exists_mem_segments {c : Char} {cs : List Char} (h : c ∈ cs) (hc : c ≠ '.') :
    ∃ s ∈ segments cs, c ∈ s.toList := by
  obtain ⟨piece, hpiece, hcpiece⟩ := exists_mem_split h hc
  have hne : cs ≠ [] := List.ne_nil_of_mem h
  refine ⟨String.ofList piece, ?_, by rwa [String.toList_ofList]⟩
  rw [segments, if_neg hne]
  exact List.mem_map_of_mem hpiece

theorem toList_dotted_cons_cons (s t : String) (rest : List String) :
    (dotted (s :: t :: rest)).toList = s.toList ++ '.' :: (dotted (t :: rest)).toList := by
  rw [dotted, String.intercalate_cons_cons, String.toList_append, String.toList_append]
  simp [dotted]

/-- A dotted path is split into its segments, empty ones included. -/
theorem split_dotted {segs : List String} (hne : segs ≠ []) (h : ∀ s ∈ segs, '.' ∉ s.toList) :
    split '.' (dotted segs).toList = segs.map String.toList := by
  induction segs with
  | nil => exact absurd rfl hne
  | cons s rest ih =>
      have hs := h s List.mem_cons_self
      cases rest with
      | nil => rw [dotted_singleton, split_of_notMem hs, List.map_singleton]
      | cons t rest =>
          have hrest : ∀ u ∈ t :: rest, '.' ∉ u.toList := fun u hu =>
            h u (List.mem_cons_of_mem _ hu)
          rw [toList_dotted_cons_cons, split_append_cons hs, ih (List.cons_ne_nil _ _) hrest]
          rfl

/-- A dotted path that is not the empty text is read as its segments. -/
theorem segments_dotted_of_ne_nil {segs : List String} (hne : (dotted segs).toList ≠ [])
    (h : ∀ s ∈ segs, '.' ∉ s.toList) : segments (dotted segs).toList = segs := by
  have hsegs : segs ≠ [] := by
    rintro rfl
    exact hne rfl
  rw [segments, if_neg hne, split_dotted hsegs h, List.map_map]
  simp

/-- A dotted path without empty segments is read as its segments. -/
theorem segments_dotted {segs : List String} (h : ∀ s ∈ segs, s ≠ "" ∧ '.' ∉ s.toList) :
    segments (dotted segs).toList = segs := by
  cases segs with
  | nil => rfl
  | cons s rest =>
      refine segments_dotted_of_ne_nil (fun hnil => ?_) fun t ht => (h t ht).2
      cases rest with
      | nil =>
          rw [dotted_singleton, String.toList_eq_nil_iff] at hnil
          exact (h s List.mem_cons_self).1 hnil
      | cons t rest =>
          rw [toList_dotted_cons_cons, List.append_eq_nil_iff] at hnil
          exact absurd hnil.2 (List.cons_ne_nil _ _)

end Text

/-! ## Identifiers -/

theorem ne_empty_of_isIdentifier {s : String} (h : isIdentifier s = true) : s ≠ "" := by
  rintro rfl
  exact absurd h (by decide)

/-- The dot and the colon that names are written with belong to no identifier. -/
theorem notMem_of_isIdentifier {s : String} (h : isIdentifier s = true) {c : Char}
    (hc : isIdentifierPart c = false) : c ∉ s.toList := by
  intro hmem
  rw [isIdentifierPart_of_mem h hmem] at hc
  exact absurd hc (by decide)

theorem isIdentifierPart_dot : isIdentifierPart '.' = false := by
  decide +kernel

theorem isIdentifierPart_separator : isIdentifierPart TypeName.separator = false := by
  decide +kernel

/-- A path of identifiers can be told from its dotted text. -/
theorem Text.segments_dotted_of_isIdentifier {segs : List String}
    (h : ∀ s ∈ segs, isIdentifier s = true) : segments (dotted segs).toList = segs :=
  segments_dotted fun s hs =>
    ⟨ne_empty_of_isIdentifier (h s hs), notMem_of_isIdentifier (h s hs) isIdentifierPart_dot⟩

namespace TypeName

variable {q r : TypeName}

/-! ## What the dotted name tells -/

/-- Two valid names with one dotted text have the same segments; they may only differ in where
the package ends. -/
theorem Valid.segments_eq_of_dotted (hq : q.Valid) (hr : r.Valid) (h : q.dotted = r.dotted) :
    q.segments = r.segments := by
  rw [← Text.segments_dotted_of_isIdentifier hq.2, ← Text.segments_dotted_of_isIdentifier hr.2]
  exact congrArg (fun text => Text.segments text.toList) h

/-- The dotted text of a valid name tells its simple name, which is the last segment wherever the
package ends. -/
theorem Valid.simpleName_eq_of_dotted (hq : q.Valid) (hr : r.Valid) (h : q.dotted = r.dotted) :
    q.simpleName = r.simpleName := by
  have hsegments := hq.segments_eq_of_dotted hr h
  rw [segments_eq_append hq.1, segments_eq_append hr.1] at hsegments
  exact List.head_eq_of_cons_eq (List.append_inj_right' hsegments rfl)

/-- A valid name whose dotted text is an identifier has one segment. -/
theorem Valid.eq_of_isIdentifier_dotted (hq : q.Valid) (h : isIdentifier q.dotted = true) :
    q = ⟨[], [q.dotted]⟩ := by
  have hone : ∀ s ∈ [q.dotted], isIdentifier s = true := by
    intro s hs
    rwa [List.mem_singleton.1 hs]
  have hsegments : q.segments = [q.dotted] := by
    have htext := Text.segments_dotted_of_isIdentifier hone
    rw [Text.dotted_singleton, dotted, Text.segments_dotted_of_isIdentifier hq.2] at htext
    exact htext
  obtain ⟨package, path⟩ := q
  rcases List.append_eq_singleton_iff.1 hsegments with ⟨hpackage, hpath⟩ | ⟨-, hpath⟩
  · obtain rfl : package = [] := hpackage
    exact congrArg (TypeName.mk []) hpath
  · exact absurd hpath hq.1

/-! ## Reading the explicit form -/

/-- There is no white space in an explicit form. -/
theorem Valid.isWhiteSpace_of_mem_explicit (hq : q.Valid) {c : Char}
    (hc : c ∈ q.explicit.toList) : isWhiteSpace c = false := by
  rcases hq.of_mem_explicit hc with hpart | rfl
  · exact isWhiteSpace_of_isNamePart hpart
  · decide

/-- The colon of an explicit form is the first one, as none stands in a package name. -/
theorem Valid.separator_notMem_packageName (hq : q.Valid) :
    separator ∉ q.packageName.toList := by
  intro hmem
  rcases Text.mem_dotted hmem with hdot | ⟨s, hs, hc⟩
  · exact absurd hdot (by decide)
  · exact notMem_of_isIdentifier (hq.2 s (List.mem_append_left _ hs)) isIdentifierPart_separator hc

/-- **A valid name is read from its explicit form.** -/
theorem Valid.parse_explicit (hq : q.Valid) : parse q.explicit = .ok q := by
  have htoList : q.explicit.toList =
      q.packageName.toList ++ separator :: (Text.dotted q.path).toList := by
    rw [explicit, String.toList_append, String.toList_push, List.append_assoc,
      List.singleton_append]
  have htrim : Text.trim q.explicit.toList = q.explicit.toList :=
    Text.trim_eq_self fun c hc => hq.isWhiteSpace_of_mem_explicit hc
  have htake : q.explicit.toList.takeWhile (· ≠ separator) = q.packageName.toList := by
    rw [htoList, Text.takeWhile_before hq.separator_notMem_packageName]
  have hdrop : (q.explicit.toList.dropWhile (· ≠ separator)).tail =
      (Text.dotted q.path).toList := by
    rw [htoList, Text.tail_dropWhile_before hq.separator_notMem_packageName]
  have hpackage : Text.segments q.packageName.toList = q.package :=
    Text.segments_dotted_of_isIdentifier fun s hs => hq.2 s (List.mem_append_left _ hs)
  have hpath : Text.segments (Text.dotted q.path).toList = q.path :=
    Text.segments_dotted_of_isIdentifier fun s hs => hq.2 s (List.mem_append_right _ hs)
  have hne : q.explicit.toList ≠ [] := by
    rw [htoList]
    simp
  have hmem : separator ∈ q.explicit.toList := by
    rw [htoList]
    simp
  unfold parse
  simp only [htrim, if_neg hne, if_pos hmem, htake, hdrop, hpackage, hpath]
  split
  · rename_i hnil
    exact absurd hnil hq.1
  · exact ofSegments_eq_ok_iff.2 ⟨rfl, hq⟩

/-! ## What a text that names a type is made of -/

/-- A text that is read as a name holds, white space at its ends aside, no other characters than
an explicit form does. -/
theorem of_mem_trim_of_parse {text : String} (h : parse text = .ok q) {c : Char}
    (hc : c ∈ Text.trim text.toList) : isNamePart c = true ∨ c = separator := by
  have hvalid := valid_of_parse h
  by_cases hdot : c = '.'
  · exact .inl (by rw [hdot]; rfl)
  have hsegment {s : String} (hs : s ∈ q.segments) (hcs : c ∈ s.toList) : isNamePart c = true :=
    hvalid.isNamePart_of_mem_segment hs hcs
  unfold parse at h
  simp only at h
  split at h
  · exact absurd h (by simp)
  · split at h
    · split at h
      · exact absurd h (by simp)
      · rename_i path _ hpath
        obtain rfl := (ofSegments_eq_ok_iff.1 h).1
        rw [← List.takeWhile_append_dropWhile (p := (· ≠ separator))
          (l := Text.trim text.toList), List.mem_append] at hc
        rcases hc with hc | hc
        · obtain ⟨s, hs, hcs⟩ := Text.exists_mem_segments hc hdot
          exact .inl (hsegment (List.mem_append_left _ hs) hcs)
        · cases hdrop : (Text.trim text.toList).dropWhile (· ≠ separator) with
          | nil =>
              rw [hdrop] at hc
              exact absurd hc List.not_mem_nil
          | cons d rest =>
              rw [hdrop, List.mem_cons] at hc
              rcases hc with rfl | hc
              · have hhead := List.head?_dropWhile_not (· ≠ separator) (Text.trim text.toList)
                rw [hdrop] at hhead
                exact .inr (by simpa using hhead)
              · obtain ⟨s, hs, hcs⟩ := Text.exists_mem_segments hc hdot
                refine .inl (hsegment (List.mem_append_right _ ?_) hcs)
                rwa [hdrop, List.tail_cons]
    · split at h
      · exact absurd h (by simp)
      · rename_i package path _ hspan
        obtain rfl := (ofSegments_eq_ok_iff.1 h).1
        obtain ⟨s, hs, hcs⟩ := Text.exists_mem_segments hc hdot
        have hsegments : Text.segments (Text.trim text.toList) = package ++ path := by
          rw [List.span_eq_takeWhile_dropWhile] at hspan
          rw [← List.takeWhile_append_dropWhile (p := (!startsUppercase ·))
            (l := Text.segments (Text.trim text.toList)), (Prod.mk.inj hspan).1,
            (Prod.mk.inj hspan).2]
        rw [hsegments] at hs
        exact .inl (hsegment hs hcs)

/-- No mark of a reference stands in a text that names a type. -/
theorem notMem_of_parse {text : String} (h : parse text = .ok q) {c : Char}
    (hpart : isNamePart c = false) (hspace : isWhiteSpace c = false) (hne : c ≠ separator) :
    c ∉ text.toList := by
  intro hmem
  rcases of_mem_trim_of_parse h (Text.mem_trim_of_mem hspace hmem) with hc | hc
  · rw [hc] at hpart
    exact absurd hpart (by decide)
  · exact hne hc

end TypeName
end JavaUnit
