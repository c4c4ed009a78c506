import JavaUnit.Proofs.NameReading
import Mathlib.Data.List.TakeWhile

/-!
# The grammar of names

A text that is read as a name is cut in two steps.  The white space around it goes, and then the
rest is cut into the segments of a package and those of a nesting path: at the first colon, or, if
there is none, in front of the first segment with a capital letter (`TypeName.CutInto`).  Every text
can be cut, so the grammar says what any text is read as: the name with these two lists, if it is
valid, and one of three errors otherwise (`TypeName.parse_by_grammar`).

The errors have an order that is easily missed.  A text with an empty nesting path is refused for
that, whatever its other segments are.  Only then are the segments looked at, and of those that are
no identifiers the first is reported.
-/

namespace JavaUnit

/-! ## Dotted paths -/

namespace Text

/-- The text is the dotted path of these segments, which may be empty.  A path without segments is
the empty text, and the empty text is no other path. -/
structure DottedPath (cs : List Char) (segs : List String) : Prop where
  joined : (dotted segs).toList = cs
  dotless : ∀ s ∈ segs, '.' ∉ s.toList
  bare : cs = [] → segs = []

theorem dottedPath_segments (cs : List Char) : DottedPath cs (segments cs) := by
  by_cases hcs : cs = []
  · subst hcs
    exact ⟨rfl, by simp, fun _ => rfl⟩
  · refine ⟨?_, ?_, fun hnil => absurd hnil hcs⟩
    · have hpieces : (segments cs).map String.toList = split '.' cs := by
        rw [segments, if_neg hcs, List.map_map]
        simp
      rw [dotted, String.toList_intercalate, hpieces]
      exact join_split '.' cs
    · intro s hs
      rw [segments, if_neg hcs, List.mem_map] at hs
      obtain ⟨piece, hpiece, rfl⟩ := hs
      rw [String.toList_ofList]
      exact not_mem_of_mem_split hpiece

/-- A text is the dotted path of the segments it is read as, and of no others. -/
theorem dottedPath_iff {cs : List Char} {segs : List String} :
    DottedPath cs segs ↔ segments cs = segs := by
  constructor
  · rintro ⟨rfl, hdotless, hbare⟩
    by_cases hnil : (dotted segs).toList = []
    · rw [hnil, hbare hnil]
      rfl
    · exact segments_dotted_of_ne_nil hnil hdotless
  · rintro rfl
    exact dottedPath_segments cs

end Text

namespace TypeName

open Text

/-! ## Segments that are no identifiers -/

/-- The first of the segments that is no identifier. -/
def FirstInvalid (segs : List String) (segment : String) : Prop :=
  ∃ before after, segs = before ++ segment :: after ∧
    (∀ s ∈ before, isIdentifier s = true) ∧ isIdentifier segment = false

theorem firstInvalid_iff {segs : List String} {segment : String} :
    FirstInvalid segs segment ↔ segs.find? (!isIdentifier ·) = some segment := by
  rw [List.find?_eq_some_iff_append]
  constructor
  · rintro ⟨before, after, hsegs, hbefore, hinvalid⟩
    exact ⟨by simp [hinvalid], before, after, hsegs, fun s hs => by simp [hbefore s hs]⟩
  · rintro ⟨hinvalid, before, after, hsegs, hbefore⟩
    exact ⟨before, after, hsegs, fun s hs => by simpa using hbefore s hs, by simpa using hinvalid⟩

/-- Building from segments looks for a type first and at the segments then. -/
theorem ofSegments_eq_error_iff {package path : List String} {e : NameError} :
    ofSegments package path = .error e ↔
      (path = [] ∧ e = .noType (dotted ⟨package, path⟩)) ∨
        (path ≠ [] ∧ ∃ segment, FirstInvalid (package ++ path) segment ∧
          e = .invalidSegment (dotted ⟨package, path⟩) segment) := by
  by_cases hpath : path = []
  · simp [ofSegments, hpath, eq_comm]
  · simp only [firstInvalid_iff]
    cases hfind : (package ++ path).find? (!isIdentifier ·) with
    | none => simp [ofSegments, hpath, segments, hfind]
    | some segment => simp [ofSegments, hpath, segments, hfind, eq_comm]

/-! ## Package and nesting path -/

/-- The text is cut into the package and the nesting path of `q`, which may be any segments. -/
inductive CutInto (t : List Char) (q : TypeName) : Prop where
  /-- The first colon separates the two. -/
  | explicit {before after : List Char} (hsplit : t = before ++ separator :: after)
      (hfirst : separator ∉ before) (hpackage : DottedPath before q.package)
      (hpath : DottedPath after q.path)
  /-- Without a colon, the nesting path starts at the first segment with a capital letter. -/
  | conventional (hcolon : separator ∉ t) (hsegments : DottedPath t q.segments)
      (hpackage : ∀ s ∈ q.package, startsUppercase s = false)
      (hpath : ∀ s ∈ q.path.head?, startsUppercase s = true)

/-- Every text can be cut. -/
theorem exists_cutInto (t : List Char) : ∃ q, CutInto t q := by
  by_cases hcolon : separator ∈ t
  · obtain ⟨before, after, hsplit, hfirst⟩ := List.eq_append_cons_of_mem hcolon
    exact ⟨⟨Text.segments before, Text.segments after⟩,
      .explicit hsplit hfirst (dottedPath_segments _) (dottedPath_segments _)⟩
  · refine ⟨⟨(Text.segments t).takeWhile (!startsUppercase ·),
      (Text.segments t).dropWhile (!startsUppercase ·)⟩, .conventional hcolon ?_ ?_ ?_⟩
    · rw [TypeName.segments, List.takeWhile_append_dropWhile]
      exact dottedPath_segments t
    · intro s hs
      simpa using List.mem_takeWhile_imp hs
    · intro s hs
      have hhead := List.head?_dropWhile_not (!startsUppercase ·) (Text.segments t)
      rw [Option.mem_def.1 hs] at hhead
      simpa using hhead

variable {text : String} {q : TypeName}

/-- **A text is read as what it is cut into.**  Without a nesting path it names no type, and
otherwise it is up to the segments. -/
theorem CutInto.parse_eq (h : CutInto (trim text.toList) q) (hne : trim text.toList ≠ []) :
    parse text =
      if q.path = [] then .error (.noType (String.ofList (trim text.toList)))
      else ofSegments q.package q.path := by
  cases h with
  | @explicit before after hsplit hfirst hpackage hpath =>
      have hmem : separator ∈ trim text.toList := by
        rw [hsplit]
        simp
      have htake : (trim text.toList).takeWhile (· ≠ separator) = before := by
        rw [hsplit, takeWhile_before hfirst]
      have hdrop : ((trim text.toList).dropWhile (· ≠ separator)).tail = after := by
        rw [hsplit, tail_dropWhile_before hfirst]
      simp only [parse, if_neg hne, if_pos hmem, htake, hdrop, dottedPath_iff.1 hpackage,
        dottedPath_iff.1 hpath]
      split
      · rename_i hnil
        rw [if_pos hnil]
      · rename_i hpath
        rw [if_neg hpath]
  | conventional hcolon hsegments hpackage hpath =>
      have hbefore : ∀ s ∈ q.package, (!startsUppercase s) = true := by
        intro s hs
        simp [hpackage s hs]
      have hspan : (Text.segments (trim text.toList)).span (!startsUppercase ·) =
          (q.package, q.path) := by
        rw [dottedPath_iff.1 hsegments, List.span_eq_takeWhile_dropWhile, TypeName.segments,
          List.takeWhile_append_of_pos hbefore, List.dropWhile_append_of_pos hbefore]
        cases hcases : q.path with
        | nil => simp
        | cons first rest =>
            have hfirst : startsUppercase first = true := hpath first (by simp [hcases])
            simp [hfirst]
      simp only [parse, if_neg hne, if_neg hcolon, hspan]
      split
      · rename_i hnil
        rw [if_pos (Prod.mk.inj hnil).2]
      · rename_i hcons heq
        obtain ⟨rfl, rfl⟩ := Prod.mk.inj heq
        rw [if_neg hcons]

/-- Which names a text is read as. -/
theorem parse_eq_ok_iff (hne : trim text.toList ≠ []) :
    parse text = .ok q ↔ CutInto (trim text.toList) q ∧ q.Valid := by
  constructor
  · intro hparse
    obtain ⟨r, hcut⟩ := exists_cutInto (trim text.toList)
    rw [hcut.parse_eq hne] at hparse
    split at hparse
    · exact absurd hparse (by simp)
    · obtain ⟨rfl, hvalid⟩ := ofSegments_eq_ok_iff.1 hparse
      exact ⟨hcut, hvalid⟩
  · rintro ⟨hcut, hvalid⟩
    rw [hcut.parse_eq hne, if_neg hvalid.1]
    exact ofSegments_eq_ok_iff.2 ⟨rfl, hvalid⟩

/-- With which errors a text is refused.  A missing type comes before all that is wrong with the
segments. -/
theorem parse_eq_error_iff (hne : trim text.toList ≠ []) {e : NameError} :
    parse text = .error e ↔
      ∃ q, CutInto (trim text.toList) q ∧
        ((q.path = [] ∧ e = .noType (String.ofList (trim text.toList))) ∨
          (q.path ≠ [] ∧ ∃ segment, FirstInvalid q.segments segment ∧
            e = .invalidSegment q.dotted segment)) := by
  constructor
  · intro hparse
    obtain ⟨q, hcut⟩ := exists_cutInto (trim text.toList)
    refine ⟨q, hcut, ?_⟩
    rw [hcut.parse_eq hne] at hparse
    split at hparse
    · rename_i hnil
      exact .inl ⟨hnil, (Except.error.inj hparse).symm⟩
    · rename_i hpath
      rcases ofSegments_eq_error_iff.1 hparse with ⟨hnil, -⟩ | hinvalid
      · exact absurd hnil hpath
      · exact .inr hinvalid
  · rintro ⟨q, hcut, ⟨hnil, rfl⟩ | hinvalid⟩
    · rw [hcut.parse_eq hne, if_pos hnil]
    · rw [hcut.parse_eq hne, if_neg hinvalid.1]
      exact ofSegments_eq_error_iff.2 (.inr hinvalid)

/-- The texts that are cut into a package alone: those that end with their first colon, and those
in which neither a colon nor a capital letter says where a nesting path starts. -/
theorem exists_cutInto_untyped_iff {t : List Char} :
    (∃ q, CutInto t q ∧ q.path = []) ↔
      (∃ before, t = before ++ [separator] ∧ separator ∉ before) ∨
        (separator ∉ t ∧ ∃ segs, DottedPath t segs ∧ ∀ s ∈ segs, startsUppercase s = false) := by
  constructor
  · rintro ⟨⟨package, path⟩, hcut, rfl⟩
    cases hcut with
    | explicit hsplit hfirst hpackage hpath =>
        obtain rfl := hpath.joined
        exact .inl ⟨_, hsplit, hfirst⟩
    | conventional hcolon hsegments hpackage hpath =>
        rw [TypeName.segments, List.append_nil] at hsegments
        exact .inr ⟨hcolon, package, hsegments, hpackage⟩
  · rintro (⟨before, hsplit, hfirst⟩ | ⟨hcolon, segs, hsegs, hlower⟩)
    · exact ⟨⟨Text.segments before, []⟩,
        .explicit hsplit hfirst (dottedPath_segments before) (dottedPath_segments []), rfl⟩
    · refine ⟨⟨segs, []⟩, .conventional hcolon ?_ hlower (by simp), rfl⟩
      rwa [TypeName.segments, List.append_nil]

/-- What the grammar says a text is read as, if `t` is left of it without the white space at its
ends. -/
structure ReadByGrammar (t : List Char) (result : Except NameError TypeName) : Prop where
  /-- It is a name if what it is cut into is one: both lists hold identifiers only, and there is a
  nesting path. -/
  ok_iff : ∀ q, result = .ok q ↔ t ≠ [] ∧ CutInto t q ∧ q.Valid
  empty_iff : result = .error .empty ↔ t = []
  /-- There is no type behind a colon that ends the text, and none in a text without a colon in
  which no segment has a capital letter at its start, whatever the segments are. -/
  noType_iff : ∀ input, result = .error (.noType input) ↔
    t ≠ [] ∧ input = String.ofList t ∧
      ((∃ before, t = before ++ [separator] ∧ separator ∉ before) ∨
        (separator ∉ t ∧ ∃ segs, DottedPath t segs ∧ ∀ s ∈ segs, startsUppercase s = false))
  /-- Otherwise the first segment is reported that is no identifier, package before nesting path,
  together with the dotted text of both. -/
  invalidSegment_iff : ∀ input segment, result = .error (.invalidSegment input segment) ↔
    t ≠ [] ∧ ∃ q, CutInto t q ∧ q.path ≠ [] ∧ input = q.dotted ∧ FirstInvalid q.segments segment

/-- **Names are read by the grammar, and by nothing else.**  The four cases exclude one another, and
every text is in one of them. -/
theorem parse_by_grammar (text : String) : ReadByGrammar (trim text.toList) (parse text) := by
  by_cases hempty : trim text.toList = []
  · have hparse : parse text = .error .empty := by simp [parse, hempty]
    rw [hparse, hempty]
    refine ⟨?_, ?_, ?_, ?_⟩ <;> simp
  · refine ⟨?_, ?_, ?_, ?_⟩
    · intro q
      rw [parse_eq_ok_iff hempty]
      simp [hempty]
    · rw [parse_eq_error_iff hempty]
      simp [hempty]
    · intro input
      rw [parse_eq_error_iff hempty, ← exists_cutInto_untyped_iff]
      constructor
      · rintro ⟨q, hcut, ⟨hnil, he⟩ | ⟨-, segment, -, he⟩⟩
        · exact ⟨hempty, NameError.noType.inj he, q, hcut, hnil⟩
        · exact absurd he (by simp)
      · rintro ⟨-, rfl, q, hcut, hnil⟩
        exact ⟨q, hcut, .inl ⟨hnil, rfl⟩⟩
    · intro input segment
      rw [parse_eq_error_iff hempty]
      constructor
      · rintro ⟨q, hcut, ⟨-, he⟩ | ⟨hpath, s, hfirst, he⟩⟩
        · exact absurd he (by simp)
        · obtain ⟨rfl, rfl⟩ := NameError.invalidSegment.inj he
          exact ⟨hempty, q, hcut, hpath, rfl, hfirst⟩
      · rintro ⟨-, q, hcut, hpath, rfl, hfirst⟩
        exact ⟨q, hcut, .inr ⟨hpath, segment, hfirst, rfl⟩⟩

/-- The missing type is reported first, though no segment is an identifier. -/
example : parse " 1.class:\n" = .error (.noType "1.class:") := by decide +kernel

/-- A second colon belongs to a segment; the text it is reported in has a dot for the first. -/
example : parse "a:B:C.1" = .error (.invalidSegment "a.B:C.1" "B:C") := by decide +kernel

end TypeName
end JavaUnit
