import JavaUnit.Proofs.ImportBlock

/-!
# What is written stays

A unit has no step that takes back what it wrote.  A step that fails may have written a part of
what it was to write, and that part stays too.  So the text at one point of a run starts with the
text at any point before it, down to the preamble, which is the text of a unit that has just been
started.

In lines, the preamble is the heading of the file: a remark that the file is generated, the
package, and an empty line (`Headed`).  That it makes three lines and no more is a fact about
names.  No segment of a package has a newline in it.
-/

namespace JavaUnit

/-! ## The heading -/

namespace Text

/-- The lines of a text.  What follows the last newline is a line of its own. -/
def lines (text : String) : List String :=
  (split '\n' text.toList).map String.ofList

theorem lines_append_cons {line : String} (h : '\n' ∉ line.toList) (rest : String) :
    lines (line ++ ("\n" ++ rest)) = line :: lines rest := by
  have hsplit : (line ++ ("\n" ++ rest)).toList = line.toList ++ '\n' :: rest.toList := by simp
  rw [lines, hsplit, split_append_cons h, List.map_cons, String.ofList_toList, lines]

/-- A dotted path of identifiers fits on a line. -/
theorem newline_notMem_dotted {segments : List String}
    (h : ∀ s ∈ segments, isIdentifier s = true) : '\n' ∉ (dotted segments).toList := by
  intro hmem
  rcases mem_dotted hmem with hdot | ⟨s, hs, hc⟩
  · exact absurd hdot (by decide)
  · have hpart : isNamePart '\n' = true := by
      rw [isNamePart, isIdentifierPart_of_mem (h s hs) hc, Bool.true_or]
    exact ne_of_isNamePart hpart (isNamePart_eq_false '\n' (by simp)) rfl

end Text

namespace CompilationUnit

variable {visible : Visibility} {target : TypeName} {companions : List TypeName}
  {features : Features} {u v : CompilationUnit} {body : String}

/-- The lines that every file for `target` starts with. -/
def heading (target : TypeName) : List String :=
  ["// Autogenerated code. Do not modify.", "package " ++ target.packageName ++ ";", ""]

/-- The first three lines are the heading for `target`, and each of them is complete: the text goes
on behind the last. -/
def Headed (target : TypeName) (text : String) : Prop :=
  ∃ line rest, Text.lines text = heading target ++ line :: rest

/-- The preamble comes to the heading. -/
theorem headed_preamble_append (h : target.Obtainable) (body : String) :
    Headed target (preamble target ++ body) := by
  have hremark : '\n' ∉ "// Autogenerated code. Do not modify.".toList := by decide
  have hpackage : '\n' ∉ ("package " ++ target.packageName ++ ";").toList := by
    rw [String.toList_append, String.toList_append, List.mem_append, List.mem_append]
    rintro ((hmem | hmem) | hmem)
    · exact absurd hmem (by decide)
    · exact Text.newline_notMem_dotted (fun s hs => h.isIdentifier_of_mem_package hs) hmem
    · exact absurd hmem (by decide)
  have hopening : "// Autogenerated code. Do not modify.\npackage " =
      "// Autogenerated code. Do not modify." ++ ("\n" ++ "package ") := by decide +kernel
  have hclosing : ";\n\n" = ";" ++ ("\n" ++ ("" ++ "\n")) := by decide +kernel
  have hsplit : preamble target ++ body =
      "// Autogenerated code. Do not modify." ++ ("\n" ++
        ("package " ++ target.packageName ++ ";" ++ ("\n" ++ ("" ++ ("\n" ++ body))))) := by
    calc preamble target ++ body
        = "// Autogenerated code. Do not modify." ++ ("\n" ++ "package ") ++ target.packageName ++
            (";" ++ ("\n" ++ ("" ++ "\n"))) ++ body := by
          rw [← hopening, ← hclosing]
          rfl
      _ = _ := by simp only [String.append_assoc]
  obtain ⟨line, rest, hlines⟩ := List.exists_cons_of_ne_nil
    (l := Text.lines body) (by simp [Text.lines, Text.split_ne_nil])
  refine ⟨line, rest, ?_⟩
  rw [hsplit, Text.lines_append_cons hremark, Text.lines_append_cons hpackage,
    Text.lines_append_cons (by simp), hlines]
  rfl

/-- The imports are put in below the preamble. -/
theorem exists_renderWithImports_eq (htext : v.text = preamble v.target ++ body) :
    ∃ rest, v.renderWithImports = preamble v.target ++ rest := by
  by_cases hnone : v.imports = []
  · exact ⟨body, by rw [renderWithImports, hnone, htext]⟩
  · refine ⟨String.join (v.imports.map importLine) ++ "\n" ++ v.body, ?_⟩
    rw [renderWithImports_of_ne_nil hnone]
    simp only [String.append_assoc]

/-! ## Along a run -/

theorem editAll_append (u : CompilationUnit) (done later : List Edit) :
    u.editAll (done ++ later) = (u.editAll done).editAll later :=
  List.foldl_append

/-- At every point of a run the text is the preamble with something after it. -/
theorem text_editAll_of_start (h : start visible target companions features = .ok u)
    (edits : List Edit) :
    (u.editAll edits).target = target ∧
      ∃ body, (u.editAll edits).text = preamble target ++ body := by
  obtain ⟨history, hreach⟩ := Reaches.refl (u := u).editAll edits
  obtain ⟨body, htext⟩ := hreach.text_eq_append
  have hpreamble : u.text = preamble target := congrArg Reading.text (reading_of_start h)
  exact ⟨hreach.target_eq.trans (target_of_start h), body, by rw [htext, hpreamble]⟩

/-- **The text only grows, below a heading that never changes.**  Whatever edits are made, and
whether they succeed or fail, the text before them is a beginning of the text after them.  At every
point the text starts with the three lines of the heading, and so does the file with its imports.
To ask for the imports or for that file is no edit: both are read off the unit as it stands. -/
theorem grows_below_heading (h : start visible target companions features = .ok u)
    (hname : target.Obtainable) (done later : List Edit) :
    (∃ added, (u.editAll (done ++ later)).text = (u.editAll done).text ++ added) ∧
      Headed target (u.editAll done).text ∧
      Headed target (u.editAll done).renderWithImports := by
  obtain ⟨htarget, body, htext⟩ := text_editAll_of_start h done
  refine ⟨?_, ?_, ?_⟩
  · obtain ⟨history, hreach⟩ := Reaches.refl (u := u.editAll done).editAll later
    rw [editAll_append]
    exact hreach.text_eq_append
  · rw [htext]
    exact headed_preamble_append hname body
  · rw [← htarget] at htext
    obtain ⟨rest, hrest⟩ := exists_renderWithImports_eq htext
    rw [hrest, htarget]
    exact headed_preamble_append hname rest

/-- A reference that names no type ends a run.  What came before it stays, the brace that closes
nothing does not come, and the heading stands above the imports, too. -/
theorem grows_below_heading_malformed :
    ∃ u v w, start Visibility.nothing ⟨["com", "example"], ["Widget"]⟩ [] .empty = .ok u ∧
      v = u.editAll [.type ⟨["java", "util"], ["List"]⟩, .add "%d" [],
        .text " x\uE000lower.case\uE001y"] ∧
      w = v.editAll [.text "\x7d", .render "$\x7b", .spell ⟨["java", "util"], ["Map"]⟩] ∧
      TypeName.Obtainable ⟨["com", "example"], ["Widget"]⟩ ∧
      (∃ added, w.text = v.text ++ added) ∧
      Headed ⟨["com", "example"], ["Widget"]⟩ v.text ∧
      Headed ⟨["com", "example"], ["Widget"]⟩ w.renderWithImports ∧
      v.text = preamble ⟨["com", "example"], ["Widget"]⟩ ++ "List x" ∧ w.text = v.text := by
  let target : TypeName := ⟨["com", "example"], ["Widget"]⟩
  let u := fresh target .empty (Scope.empty.claim target true)
  let done : List Edit := [.type ⟨["java", "util"], ["List"]⟩, .add "%d" [],
    .text " x\uE000lower.case\uE001y"]
  let later : List Edit := [.text "\x7d", .render "$\x7b", .spell ⟨["java", "util"], ["Map"]⟩]
  have hstart : start Visibility.nothing target [] .empty = .ok u :=
    start_nothing target .empty (by decide)
  have hname : target.Obtainable := TypeName.Valid.obtainable (by decide)
  have hwhole : u.editAll (done ++ later) = (u.editAll done).editAll later :=
    editAll_append u done later
  obtain ⟨hgrows, hheaded, -⟩ := grows_below_heading hstart hname done later
  obtain ⟨-, -, hrendered⟩ := grows_below_heading hstart hname (done ++ later) []
  rw [hwhole] at hgrows hrendered
  exact ⟨u, u.editAll done, (u.editAll done).editAll later, hstart, rfl, rfl, hname, hgrows,
    hheaded, hrendered, by decide +kernel, by decide +kernel⟩

end CompilationUnit
end JavaUnit
