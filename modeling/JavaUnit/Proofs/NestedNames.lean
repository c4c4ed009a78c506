import JavaUnit.Proofs.NameText
import Mathlib.Data.List.Infix

/-!
# Types in types

Going into a type adds a segment to the nesting path, and going out takes the last one away.  On
valid names the two undo each other.  Going in asks for an identifier and gives a valid name for it
(`TypeName.Valid.nestedType_eq_ok_iff`).  Going out asks for nothing: with fewer segments a valid
name is still valid, as long as one is left (`TypeName.Valid.around`).

Whoever goes out again and again meets the proper prefixes of the nesting path, longest first
(`TypeName.enclosings_eq`), and is stopped at the outermost type.
-/

namespace JavaUnit
namespace TypeName

variable {p q r e : TypeName} {s : String} {n : Nat}

/-! ## One step in, one step out -/

/-- The name that a valid one becomes with a segment more is valid if the segment is an
identifier. -/
theorem Valid.concat_iff (hq : q.Valid) :
    Valid ⟨q.package, q.path ++ [s]⟩ ↔ isIdentifier s = true := by
  constructor
  · intro hvalid
    exact hvalid.2 s (List.mem_append_right _ (List.mem_append_right _ List.mem_cons_self))
  · intro hs
    refine ⟨by simp, fun t ht => ?_⟩
    rw [segments, ← List.append_assoc, List.mem_append, List.mem_singleton] at ht
    rcases ht with ht | rfl
    · exact hq.2 t ht
    · exact hs

theorem Valid.nestedType_eq_ok_iff (hq : q.Valid) :
    q.nestedType s = .ok r ↔ r = ⟨q.package, q.path ++ [s]⟩ ∧ isIdentifier s = true := by
  rw [nestedType, ofSegments_eq_ok_iff]
  refine and_congr_right fun hr => ?_
  rw [hr, hq.concat_iff]

theorem enclosing?_concat (package : List String) {path : List String} (hpath : path ≠ [])
    (s : String) : enclosing? ⟨package, path ++ [s]⟩ = some ⟨package, path⟩ := by
  have hlength : ¬(path ++ [s]).length ≤ 1 := by
    have := List.length_pos_iff.2 hpath
    rw [List.length_append, List.length_singleton]
    omega
  rw [enclosing?, if_neg hlength, List.dropLast_concat]

theorem simpleName_concat (package path : List String) (s : String) :
    simpleName ⟨package, path ++ [s]⟩ = s := by
  rw [simpleName, List.getLast?_concat]
  rfl

theorem isTopLevel_iff : q.isTopLevel = true ↔ q.path.length = 1 :=
  beq_iff_eq

/-- The type around a valid one is valid. -/
theorem Valid.around (hp : p.Valid) (h : p.enclosing? = some q) : q.Valid := by
  unfold enclosing? at h
  split at h
  · exact absurd h (by simp)
  · rename_i hlength
    obtain rfl := Option.some.inj h
    refine ⟨?_, fun s hs => hp.2 s ?_⟩
    · refine List.ne_nil_of_length_pos ?_
      rw [List.length_dropLast]
      omega
    · rw [segments, List.mem_append] at hs ⊢
      exact hs.imp_right fun hpath => List.dropLast_subset _ hpath

/-- A type that is not right in its package is nested in the type around it. -/
theorem Valid.exists_around (hq : q.Valid) (hnested : q.isTopLevel = false) :
    ∃ e, q.enclosing? = some e ∧ e.Valid ∧ e.nestedType q.simpleName = .ok q := by
  have hlength : q.path.length ≠ 1 := fun h => by
    rw [isTopLevel_iff.2 h] at hnested
    exact absurd hnested (by decide)
  have hpos := List.length_pos_iff.2 hq.1
  have hsplit : q.path.dropLast ++ [q.simpleName] = q.path := by
    rw [simpleName_eq_getLast hq.1, List.dropLast_concat_getLast]
  have houter : q.path.dropLast ≠ [] := by
    refine List.ne_nil_of_length_pos ?_
    rw [List.length_dropLast]
    omega
  have henclosing : q.enclosing? = some ⟨q.package, q.path.dropLast⟩ := by
    have hconcat := enclosing?_concat q.package houter q.simpleName
    rwa [hsplit] at hconcat
  have hvalid := hq.around henclosing
  refine ⟨_, henclosing, hvalid, hvalid.nestedType_eq_ok_iff.2 ⟨?_, hq.isIdentifier_simpleName⟩⟩
  rw [hsplit]

/-! ## All the way out -/

theorem tail_inits_concat (path : List String) (s : String) :
    (path ++ [s]).inits.tail = path.inits.tail ++ [path ++ [s]] := by
  cases path <;> simp

/-- **Going out gives the proper prefixes of the nesting path, longest first.**  The induction takes
segments off the end, as going out does. -/
theorem enclosings_eq (package path : List String) :
    enclosings ⟨package, path⟩ = (path.inits.tail.dropLast.reverse).map (TypeName.mk package) := by
  induction path using List.reverseRecOn with
  | nil => exact enclosings_of_eq_none rfl
  | append_singleton path s ih =>
      rw [tail_inits_concat, List.dropLast_concat]
      rcases List.eq_nil_or_concat' path with rfl | ⟨outer, t, rfl⟩
      · exact enclosings_of_eq_none rfl
      · have hpath : outer ++ [t] ≠ [] := by simp
        rw [enclosings_of_eq_some (enclosing?_concat package hpath s), ih, tail_inits_concat,
          List.dropLast_concat, List.reverse_concat, List.map_cons]

/-- Going out `n` times leads to the `n`-th type around, the type itself being the first. -/
theorem iterate_enclosing? (q : TypeName) (n : Nat) :
    (fun o : Option TypeName => o.bind enclosing?)^[n] (some q) = (q :: q.enclosings)[n]? := by
  induction n generalizing q with
  | zero => rfl
  | succ n ih =>
      rw [Function.iterate_succ_apply, Option.bind_some, List.getElem?_cons_succ]
      cases he : q.enclosing? with
      | none =>
          rw [enclosings_of_eq_none he, List.getElem?_nil]
          exact Function.iterate_fixed rfl n
      | some e => rw [ih, enclosings_of_eq_some he]

/-- Each step out takes one segment away, and what is left is valid. -/
theorem Valid.of_getElem?_enclosings (hq : q.Valid) (h : (q :: q.enclosings)[n]? = some e) :
    e.Valid ∧ e.path.length + n = q.path.length := by
  induction n generalizing q with
  | zero =>
      obtain rfl : q = e := Option.some.inj h
      exact ⟨hq, rfl⟩
  | succ n ih =>
      rw [List.getElem?_cons_succ] at h
      cases he : q.enclosing? with
      | none =>
          rw [enclosings_of_eq_none he] at h
          exact absurd h (by simp)
      | some outer =>
          rw [enclosings_of_eq_some he] at h
          obtain ⟨hvalid, hlength⟩ := ih (hq.around he) h
          have := length_path_of_enclosing? he
          exact ⟨hvalid, by omega⟩

/-- **Going into a type and out of it are inverse.**  From a valid name one can go in with any
identifier and with nothing else; the result is not right in its package, has the identifier for its
simple name and the same package, and the way out leads back.  And from each valid name that is not
right in its package one can go out to a valid name, from which its simple name leads back in.
Going out again and again leads to the proper prefixes of the nesting path that are not empty,
longest first, all of them valid, and to a type right in its package exactly in the last step,
when all segments but one are gone. -/
theorem Valid.nestedType_inverse (hq : q.Valid) :
    (∀ s, (∃ r, q.nestedType s = .ok r) ↔ isIdentifier s = true) ∧
      (∀ s r, q.nestedType s = .ok r →
        r.enclosing? = some q ∧ r.simpleName = s ∧ r.isTopLevel = false ∧
          r.package = q.package) ∧
      (q.isTopLevel = false →
        ∃ e, q.enclosing? = some e ∧ e.Valid ∧ e.nestedType q.simpleName = .ok q) ∧
      (∀ n, (fun o : Option TypeName => o.bind enclosing?)^[n] (some q) =
        (q :: q.enclosings)[n]?) ∧
      q.enclosings = (q.path.inits.tail.dropLast.reverse).map (TypeName.mk q.package) ∧
      q.enclosings.length = q.path.length - 1 ∧
      ∀ n e, (q :: q.enclosings)[n]? = some e →
        e.Valid ∧ (e.isTopLevel = true ↔ n = q.path.length - 1) := by
  have houtwards : q.enclosings =
      (q.path.inits.tail.dropLast.reverse).map (TypeName.mk q.package) :=
    enclosings_eq q.package q.path
  refine ⟨fun s => ?_, fun s r h => ?_, hq.exists_around, iterate_enclosing? q, houtwards, ?_,
    fun n e h => ?_⟩
  · constructor
    · rintro ⟨r, h⟩
      exact (hq.nestedType_eq_ok_iff.1 h).2
    · intro hs
      exact ⟨_, hq.nestedType_eq_ok_iff.2 ⟨rfl, hs⟩⟩
  · obtain ⟨rfl, -⟩ := hq.nestedType_eq_ok_iff.1 h
    refine ⟨enclosing?_concat _ hq.1 s, simpleName_concat _ _ s, ?_, rfl⟩
    refine Bool.eq_false_iff.2 fun htop => hq.1 ?_
    have hlength := isTopLevel_iff.1 htop
    rw [List.length_append, List.length_singleton] at hlength
    exact List.length_eq_zero_iff.1 (by omega)
  · rw [houtwards]
    simp
  · obtain ⟨hvalid, hlength⟩ := hq.of_getElem?_enclosings h
    have hpos := List.length_pos_iff.2 hvalid.1
    rw [isTopLevel_iff]
    exact ⟨hvalid, by omega⟩

/-- Three types deep: a word that is a keyword leads nowhere, and two steps lead out. -/
theorem Valid.nestedType_inverse_entry :
    (∃ r, nestedType ⟨["java", "util"], ["Map", "Entry"]⟩ "Key" = .ok r ∧
        r.enclosing? = some ⟨["java", "util"], ["Map", "Entry"]⟩ ∧ r.simpleName = "Key" ∧
        r.enclosings =
          [⟨["java", "util"], ["Map", "Entry"]⟩, ⟨["java", "util"], ["Map"]⟩]) ∧
      ¬(∃ r, nestedType ⟨["java", "util"], ["Map", "Entry"]⟩ "class" = .ok r) ∧
      nestedType ⟨["java", "util"], ["Map"]⟩ "Entry" =
        .ok ⟨["java", "util"], ["Map", "Entry"]⟩ := by
  have hentry : Valid ⟨["java", "util"], ["Map", "Entry"]⟩ := by decide +kernel
  obtain ⟨haccepts, hinwards, houtwards, -⟩ := hentry.nestedType_inverse
  obtain ⟨r, hr⟩ := (haccepts "Key").2 (by decide +kernel)
  obtain ⟨henclosing, hsimple, -, -⟩ := hinwards "Key" r hr
  have hkey : r = ⟨["java", "util"], ["Map", "Entry", "Key"]⟩ :=
    (hentry.nestedType_eq_ok_iff.1 hr).1
  have hvalid : r.Valid := (ofSegments_eq_ok_iff.1 hr).2
  obtain ⟨-, -, -, -, houter, -⟩ := hvalid.nestedType_inverse
  refine ⟨⟨r, hr, henclosing, hsimple, ?_⟩, fun h => ?_, ?_⟩
  · rw [houter, hkey]
    rfl
  · exact absurd ((haccepts "class").1 h) (by decide +kernel)
  · obtain ⟨e, he, -, hback⟩ := houtwards (by decide)
    obtain rfl : ⟨["java", "util"], ["Map"]⟩ = e := Option.some.inj he
    exact hback

end TypeName
end JavaUnit
