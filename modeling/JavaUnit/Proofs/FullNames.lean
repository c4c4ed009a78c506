import JavaUnit.Proofs.Mentions
import JavaUnit.Proofs.NameReading

/-!
# Names in full

A type that cannot have its simple name is mentioned in full, and what is left to ask is whether
the dotted name tells it from the others of its simple name.  It tells the segments of the name,
but not where the package ends among them: `com.example.Outer.Inner` is the dotted name of a
type nested in `Outer`, and of a type `Inner` in a package that ends with `Outer`.  And in the
default package there is nothing to put before the simple name, so that the dotted name of a
top-level type is the simple name, which in the unit may stand for another type.

These are the only two ways for two types to be spelled alike once one of them is mentioned in
full (`mention_in_full`).
-/

namespace JavaUnit
namespace CompilationUnit

variable {u : CompilationUnit} {m n : Mention} {edits : List Edit}

/-! ## Valid names only -/

/-- A reference that comes to its end has been read, so its type has a valid name. -/
theorem valid_of_mention? {c : Char} (h : u.mention? c = some m) : m.type.Valid := by
  obtain ⟨-, -, payload, region, -, hparse, -⟩ := mention?_eq_some_iff.1 h
  exact TypeName.valid_of_parse hparse

theorem valid_of_mem_mentionsIn {cs : List Char} (h : m ∈ u.mentionsIn cs) : m.type.Valid := by
  induction cs generalizing u with
  | nil => exact absurd h (by simp [mentionsIn])
  | cons c cs ih =>
      rcases mem_mentionsIn_cons.1 h with hfirst | ⟨-, hrest⟩
      · exact valid_of_mention? hfirst
      · exact ih hrest

/-- A run that asks for the spellings of valid names mentions no others. -/
theorem valid_of_mem_mentions (hvalid : ∀ q, Edit.spell q ∈ edits → q.Valid)
    (h : m ∈ u.mentions edits) : m.type.Valid := by
  induction edits generalizing u with
  | nil => exact absurd h (by simp [mentions])
  | cons e edits ih =>
      rw [mentions, List.mem_append] at h
      rcases h with hfirst | hrest
      · rcases u.mentionsOf_cases e with ⟨q, rfl⟩ | ⟨hmentions, -⟩
        · rw [mentionsOf_spell, List.mem_singleton] at hfirst
          rw [hfirst]
          exact hvalid q List.mem_cons_self
        · rw [hmentions] at hfirst
          exact valid_of_mem_mentionsIn hfirst
      · exact ih (fun q hq => hvalid q (List.mem_cons_of_mem _ hq)) hrest

/-! ## Mentions in full -/

/-- **A type mentioned in full is told by its segments.**  Whatever else in the run is spelled by
the same text has the same segments, in package and nesting path together, unless the type is a
top-level one of the default package: then it may also be what its simple name stands for. -/
theorem mention_in_full (hvalid : ∀ q, Edit.spell q ∈ edits → q.Valid)
    (hm : m ∈ u.mentions edits) (hn : n ∈ u.mentions edits) (hfull : m.spelling = m.type.dotted)
    (hsame : n.spelling = m.spelling) :
    n.type.segments = m.type.segments ∨
      m.type = ⟨[], [n.type.simpleName]⟩ ∧ n.spelling = n.type.simpleName ∧
        n.after.scope.Owns n.type := by
  have hmvalid := valid_of_mem_mentions hvalid hm
  have hnvalid := valid_of_mem_mentions hvalid hn
  rw [hfull] at hsame
  rcases (within_mentions hn).spelling_cases with ⟨-, hsimple, howns⟩ | hdotted
  · rw [hsimple] at hsame
    have hident : isIdentifier m.type.dotted = true := by
      rw [← hsame]
      exact hnvalid.isIdentifier_simpleName
    have htype := hmvalid.eq_of_isIdentifier_dotted hident
    rw [← hsame] at htype
    exact .inr ⟨htype, hsimple, howns⟩
  · rw [hdotted] at hsame
    exact .inl (hnvalid.segments_eq_of_dotted hmvalid hsame)

/-- Once `List` stands for a type of a named package, the `List` of the default package is
mentioned by the same text. -/
theorem mention_in_full_defaultPackage :
    ∃ u m n, start Visibility.nothing ⟨["com", "example"], ["Widget"]⟩ [] .empty = .ok u ∧
      m ∈ u.mentions [.type ⟨["java", "util"], ["List"]⟩, .type ⟨[], ["List"]⟩] ∧
      n ∈ u.mentions [.type ⟨["java", "util"], ["List"]⟩, .type ⟨[], ["List"]⟩] ∧
      m.spelling = m.type.dotted ∧ n.spelling = m.spelling ∧
      m.type = ⟨[], [n.type.simpleName]⟩ ∧ n.after.scope.Owns ⟨["java", "util"], ["List"]⟩ := by
  have hstart := start_nothing ⟨["com", "example"], ["Widget"]⟩ .empty (by decide)
  have hmentions : ((fresh ⟨["com", "example"], ["Widget"]⟩ .empty
      (Scope.empty.claim ⟨["com", "example"], ["Widget"]⟩ true)).mentions
        [.type ⟨["java", "util"], ["List"]⟩, .type ⟨[], ["List"]⟩]).map
          (fun m => (m.type, m.spelling)) =
      [(⟨["java", "util"], ["List"]⟩, "List"), (⟨[], ["List"]⟩, "List")] := by
    decide +kernel
  obtain ⟨n, hn, hnspelling⟩ := List.mem_map.1 (hmentions ▸ List.mem_cons_self)
  obtain ⟨m, hm, hmspelling⟩ :=
    List.mem_map.1 (hmentions ▸ List.mem_cons_of_mem _ List.mem_cons_self)
  obtain ⟨hmtype, hmspelling⟩ := Prod.mk.inj hmspelling
  obtain ⟨hntype, hnspelling⟩ := Prod.mk.inj hnspelling
  have hfull : m.spelling = m.type.dotted := by
    rw [hmspelling, hmtype]
    decide
  have hsame : n.spelling = m.spelling := by
    rw [hmspelling, hnspelling]
  have hvalid (q : TypeName)
      (hq : Edit.spell q ∈ [.type ⟨["java", "util"], ["List"]⟩, .type ⟨[], ["List"]⟩]) :
      q.Valid := by
    exact absurd hq (by simp)
  rcases mention_in_full hvalid hm hn hfull hsame with hsegments | ⟨htype, -, howns⟩
  · rw [hmtype, hntype] at hsegments
    exact absurd hsegments (by decide)
  · rw [hntype] at howns
    exact ⟨_, m, n, hstart, hm, hn, hfull, hsame, htype, howns⟩

/-- Two types that differ in where the package ends are both mentioned in full, and alike. -/
theorem mentions_in_full_alike :
    ∃ u m n, start Visibility.nothing ⟨["com", "example"], ["Widget"]⟩ [] .empty = .ok u ∧
      m ∈ u.mentions [.spell ⟨["com"], ["Example", "Widget"]⟩,
        .spell ⟨["com", "Example"], ["Widget"]⟩] ∧
      n ∈ u.mentions [.spell ⟨["com"], ["Example", "Widget"]⟩,
        .spell ⟨["com", "Example"], ["Widget"]⟩] ∧
      m.type.Valid ∧ n.type.Valid ∧ m.spelling = m.type.dotted ∧ m.type ≠ n.type ∧
      m.spelling = n.spelling := by
  have hstart := start_nothing ⟨["com", "example"], ["Widget"]⟩ .empty (by decide)
  have hmentions : ((fresh ⟨["com", "example"], ["Widget"]⟩ .empty
      (Scope.empty.claim ⟨["com", "example"], ["Widget"]⟩ true)).mentions
        [.spell ⟨["com"], ["Example", "Widget"]⟩, .spell ⟨["com", "Example"], ["Widget"]⟩]).map
          (fun m => (m.type, m.spelling)) =
      [(⟨["com"], ["Example", "Widget"]⟩, "com.Example.Widget"),
        (⟨["com", "Example"], ["Widget"]⟩, "com.Example.Widget")] := by
    decide +kernel
  obtain ⟨m, hm, hmspelling⟩ := List.mem_map.1 (hmentions ▸ List.mem_cons_self)
  obtain ⟨n, hn, hnspelling⟩ :=
    List.mem_map.1 (hmentions ▸ List.mem_cons_of_mem _ List.mem_cons_self)
  obtain ⟨hmtype, hmspelling⟩ := Prod.mk.inj hmspelling
  obtain ⟨hntype, hnspelling⟩ := Prod.mk.inj hnspelling
  refine ⟨_, m, n, hstart, hm, hn, ?_, ?_, ?_, ?_, ?_⟩
  · rw [hmtype]
    decide +kernel
  · rw [hntype]
    decide +kernel
  · rw [hmspelling, hmtype]
    decide
  · rw [hmtype, hntype]
    decide
  · rw [hmspelling, hnspelling]

end CompilationUnit
end JavaUnit
