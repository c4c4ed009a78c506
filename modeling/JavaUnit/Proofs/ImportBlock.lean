import JavaUnit.Proofs.EmittedText
import JavaUnit.Proofs.ImportList
import JavaUnit.Proofs.NestedNames

/-!
# The file with its imports

A finished file is the text of the unit with a block of imports put in after the preamble.  The
text comes out of it again if the lines of that block are cut out (`WellRendered.cut`), so the
rendering changes nothing else.

Nothing checks that the block is in order.  That it is strictly ascending and has every simple
name once comes from the scope: a name stands for one type that has it, and dotted texts of
different simple names differ.  The latter holds of valid names only.  `TypeName.Obtainable` says
how names are had, and that makes them valid but for some of `java.lang`
(`TypeName.Obtainable.valid_or`), which are never imported (`valid_of_mem_imports`).
-/

namespace JavaUnit

/-! ## Lines of a text -/

namespace Text

/-- What is left of a text without its first `n` lines. -/
def dropLines : Nat → List Char → List Char
  | 0, cs => cs
  | n + 1, cs => dropLines n (cs.dropWhile (· ≠ '\n')).tail

/-- The text with the `n` lines cut out that follow its first `start` characters. -/
def cutLines (start n : Nat) (text : String) : String :=
  String.ofList (text.toList.take start ++ dropLines n (text.toList.drop start))

theorem dropLines_line {line : List Char} (h : '\n' ∉ line) (n : Nat) (rest : List Char) :
    dropLines (n + 1) (line ++ '\n' :: rest) = dropLines n rest := by
  rw [dropLines, tail_dropWhile_before h]

theorem cutLines_append (before after : String) (n : Nat) :
    cutLines before.length n (before ++ after) =
      before ++ String.ofList (dropLines n after.toList) := by
  rw [cutLines, String.toList_append, ← String.length_toList, List.take_left, List.drop_left,
    String.ofList_append, String.ofList_toList]

end Text

/-! ## The names there are -/

namespace TypeName

variable {p q : TypeName}

/-- The names that can be had.  A nested name is built from segments like any other. -/
inductive Obtainable : TypeName → Prop where
  | built {package path : List String} {q : TypeName} (h : ofSegments package path = .ok q) :
      Obtainable q
  | read {text : String} {q : TypeName} (h : parse text = .ok q) : Obtainable q
  | around {p q : TypeName} (hp : Obtainable p) (h : p.enclosing? = some q) : Obtainable q
  /-- Types of `java.lang` are named without a check. -/
  | javaLang (simple : String) : Obtainable (JavaLang.named simple)

theorem Valid.obtainable (h : q.Valid) : q.Obtainable :=
  .built (ofSegments_eq_ok_iff.2 ⟨rfl, h⟩)

/-- What is not valid was made for `java.lang`.  The induction is on how the name was had. -/
theorem Obtainable.valid_or (h : q.Obtainable) :
    q.Valid ∨ ∃ simple, q = JavaLang.named simple := by
  induction h with
  | built h => exact .inl (ofSegments_eq_ok_iff.1 h).2
  | read h => exact .inl (valid_of_parse h)
  | around hp h ih =>
      rcases ih with hvalid | ⟨simple, rfl⟩
      · exact .inl (hvalid.around h)
      · exact absurd h (by simp [enclosing?, JavaLang.named])
  | javaLang simple => exact .inr ⟨simple, rfl⟩

/-- Whatever the type, its package is written down with identifiers. -/
theorem Obtainable.isIdentifier_of_mem_package (h : q.Obtainable) {s : String}
    (hs : s ∈ q.package) : isIdentifier s = true := by
  rcases h.valid_or with hvalid | ⟨simple, rfl⟩
  · exact hvalid.2 s (List.mem_append_left _ hs)
  · have hlang : ∀ s ∈ JavaLang.package, isIdentifier s = true := by decide +kernel
    exact hlang s hs

end TypeName

/-! ## Names in a scope -/

namespace Scope

variable {s : Scope} {q : TypeName} {P : TypeName → Prop}

/-- Whoever owns a name without having it reserved is one of these types. -/
def BindsOnly (P : TypeName → Prop) (s : Scope) : Prop :=
  ∀ simple b, s.binding? simple = some b → b.reserved = false → P b.owner

theorem BindsOnly.declare (hs : s.BindsOnly P) (hq : P q) : (s.declare q).2.BindsOnly P := by
  intro simple b hb hreserved
  rw [binding?_declare, Option.or_eq_some_iff] at hb
  rcases hb with hb | ⟨-, hb⟩
  · exact hs simple b hb hreserved
  · split at hb
    · rw [← Option.some.inj hb]
      exact hq
    · exact absurd hb (by simp)

end Scope

namespace CompilationUnit

variable {visible : Visibility} {target : TypeName} {companions : List TypeName}
  {features : Features} {u v : CompilationUnit} {q : TypeName} {body : String}

theorem bindsOnly_of_start {P : TypeName → Prop}
    (h : start visible target companions features = .ok u) (hvisible : ∀ q ∈ visible target, P q) :
    u.scope.BindsOnly P := by
  intro simple b hb hreserved
  rw [binding?_of_start h, Option.or_eq_some_iff] at hb
  rcases hb with hb | ⟨-, hb⟩
  · obtain ⟨q, -, rfl⟩ := Option.map_eq_some_iff.1 hb
    exact absurd hreserved (by simp)
  · obtain ⟨q, hq, rfl⟩ := Option.map_eq_some_iff.1 hb
    exact hvisible q (List.mem_of_find?_eq_some hq)

/-- What is declared on the way is valid, and so is all that a text refers to: only the start and
the spellings that are asked for can bring in other names. -/
theorem bindsOnly_editAll {P : TypeName → Prop} {edits : List Edit} (hu : u.scope.BindsOnly P)
    (hvalid : ∀ q : TypeName, q.Valid → P q) (hasked : ∀ q, Edit.spell q ∈ edits → P q) :
    (u.editAll edits).scope.BindsOnly P := by
  refine editAll_inv (P := fun v => v.scope.BindsOnly P) ?_ ?_ hu
  · intro v c hv
    rcases v.scope_append_cases c with h | ⟨q, hq, h⟩
    · rw [h]
      exact hv
    · rw [h]
      exact hv.declare (hvalid q hq)
  · intro v q hq hv
    rcases v.scope_spell_cases q with h | h
    · rw [h]
      exact hv
    · rw [h]
      exact hv.declare (hasked q hq)

/-- An imported name is valid, because a type right in `java.lang` is not imported. -/
theorem valid_of_mem_imports (hcoherent : u.scope.Coherent)
    (hnames : u.scope.BindsOnly TypeName.Obtainable) (hq : q ∈ u.imports) : q.Valid := by
  obtain ⟨hbinding, hseen⟩ := (mem_imports_iff hcoherent).1 hq
  rcases (hnames _ _ hbinding rfl).valid_or with hvalid | ⟨simple, rfl⟩
  · exact hvalid
  · have hlang : seenWithoutImport u.target (JavaLang.named simple) = true :=
      seenWithoutImport_iff.2 (.inl ⟨JavaLang.isTopLevel_named simple, .inr rfl⟩)
    exact absurd (hseen.symm.trans hlang) (by decide)

/-! ## The text before the imports and after them -/

/-- A run adds to the text at its end, failures included. -/
theorem Reaches.text_eq_append {history : List BlockStep} (h : Reaches u history v) :
    ∃ added, v.text = u.text ++ added := by
  refine h.inv (P := fun v => ∃ added, v.text = u.text ++ added) ?_ ?_ ⟨"", by simp⟩
  · rintro v c ⟨added, htext⟩
    cases hmention : v.mention? c with
    | some m =>
        obtain ⟨-, -, hafter, -⟩ := append_of_mention? hmention
        exact ⟨added ++ m.spelling, by rw [hafter, htext, String.append_assoc]⟩
    | none =>
        rcases text_append_of_mention?_eq_none hmention with hafter | hafter
        · exact ⟨added.push c, by simp only [hafter, htext, String.push_eq_append,
            String.append_assoc]⟩
        · exact ⟨added, hafter.trans htext⟩
  · rintro v q ⟨added, htext⟩
    exact ⟨added, htext⟩

/-! ## The order of the imports -/

/-- A simple name is listed once in the scope, so it is imported once at most. -/
theorem pairwise_simpleName_imports (hu : u.scope.Coherent) :
    u.imports.Pairwise (·.simpleName ≠ ·.simpleName) := by
  have hlisted : u.scope.toList.Pairwise
      fun a b => a.2.owner.simpleName ≠ b.2.owner.simpleName := by
    refine u.scope.pairwise_toList.imp_of_mem ?_
    intro a b ha hb hlt
    rw [hu _ _ (Scope.mem_toList_iff.1 ha), hu _ _ (Scope.mem_toList_iff.1 hb)]
    exact String.ne_of_lt hlt
  have hperm : u.imports.Perm _ := List.mergeSort_perm _ _
  refine (hperm.pairwise_iff Ne.symm).2 (List.Pairwise.filter _ (hlisted.filterMap _ ?_))
  rintro ⟨_, b⟩ ⟨_, c⟩ hne p hp q hq
  obtain ⟨-, rfl⟩ : b.reserved = false ∧ b.owner = p := by simpa using hp
  obtain ⟨-, rfl⟩ : c.reserved = false ∧ c.owner = q := by simpa using hq
  exact hne

/-- The imports are sorted by their dotted names, and no two have the same, because they would
have one simple name. -/
theorem pairwise_dotted_imports (hu : u.scope.Coherent) (hvalid : ∀ q ∈ u.imports, q.Valid) :
    u.imports.Pairwise (·.dotted < ·.dotted) := by
  have hsorted : u.imports.Pairwise (fun p q => decide (p.dotted ≤ q.dotted) = true) := by
    refine List.pairwise_mergeSort ?_ ?_ _
    · intro p q r hpq hqr
      exact decide_eq_true (String.le_trans (of_decide_eq_true hpq) (of_decide_eq_true hqr))
    · intro p q
      rw [Bool.or_eq_true, decide_eq_true_iff, decide_eq_true_iff]
      exact String.le_total _ _
  refine (hsorted.and (pairwise_simpleName_imports hu)).imp_of_mem ?_
  rintro p q hp hq ⟨hle, hne⟩
  refine String.not_le.1 fun hge => hne ?_
  exact (hvalid p hp).simpleName_eq_of_dotted (hvalid q hq)
    (String.le_antisymm (of_decide_eq_true hle) hge)

/-! ## The block of imports -/

theorem newline_notMem_importLine (hq : q.Valid) :
    '\n' ∉ ("import " ++ q.dotted ++ ";").toList := by
  rw [String.toList_append, String.toList_append, List.mem_append, List.mem_append]
  rintro ((hmem | hmem) | hmem)
  · exact absurd hmem (by decide)
  · have hnewline : isNamePart '\n' = false := isNamePart_eq_false '\n' (by simp)
    exact ne_of_isNamePart (hq.isNamePart_of_mem_dotted hmem) hnewline rfl
  · exact absurd hmem (by decide)

/-- Each import takes up one line. -/
theorem dropLines_importLines {names : List TypeName} (hvalid : ∀ q ∈ names, q.Valid) (n : Nat)
    (rest : List Char) :
    Text.dropLines (names.length + n) ((String.join (names.map importLine)).toList ++ rest) =
      Text.dropLines n rest := by
  induction names with
  | nil => simp
  | cons q names ih =>
      have hline : (importLine q).toList = ("import " ++ q.dotted ++ ";").toList ++ ['\n'] := by
        simp [importLine]
      have hlength : (q :: names).length + n = names.length + n + 1 := by
        rw [List.length_cons]
        omega
      rw [hlength, List.map_cons, String.join_cons, String.toList_append, hline, List.append_assoc,
        List.append_assoc, List.singleton_append,
        Text.dropLines_line (newline_notMem_importLine (hvalid q List.mem_cons_self))]
      exact ih fun p hp => hvalid p (List.mem_cons_of_mem _ hp)

theorem renderWithImports_of_ne_nil (h : u.imports ≠ []) :
    u.renderWithImports =
      preamble u.target ++ String.join (u.imports.map importLine) ++ "\n" ++ u.body := by
  unfold renderWithImports
  split
  · rename_i hnil
    exact absurd hnil h
  · rfl

/-- The lines of the imports and the empty line after them are all that a rendering adds. -/
theorem cutLines_renderWithImports (htext : u.text = preamble u.target ++ body)
    (hvalid : ∀ q ∈ u.imports, q.Valid) (hne : u.imports ≠ []) :
    Text.cutLines (preamble u.target).length (u.imports.length + 1) u.renderWithImports =
      u.text := by
  have hempty : "\n".toList ++ body.toList = [] ++ '\n' :: body.toList := by simp
  have hblock : Text.dropLines (u.imports.length + 1)
      (String.join (u.imports.map importLine) ++ ("\n" ++ body)).toList = body.toList := by
    rw [String.toList_append, String.toList_append, dropLines_importLines hvalid, hempty,
      Text.dropLines_line List.not_mem_nil, Text.dropLines]
  rw [renderWithImports_of_ne_nil hne, body_of_text htext, String.append_assoc,
    String.append_assoc, Text.cutLines_append, hblock, String.ofList_toList, htext]

/-- What a reader of the finished file of `v` can rely on. -/
structure WellRendered (target : TypeName) (v : CompilationUnit) : Prop where
  /-- The text starts with the preamble. -/
  text : v.text = preamble target ++ v.body
  /-- A unit that imports nothing is printed as it is. -/
  bare : v.imports = [] → v.renderWithImports = v.text
  /-- A line for each import and an empty line come between the preamble and the rest. -/
  spliced : v.imports ≠ [] →
    v.renderWithImports =
      preamble target ++ String.join (v.imports.map fun q => "import " ++ q.dotted ++ ";\n") ++
        "\n" ++ v.body
  /-- Without these lines it is the text again. -/
  cut : v.imports ≠ [] →
    Text.cutLines (preamble target).length (v.imports.length + 1) v.renderWithImports = v.text
  ascending : v.imports.Pairwise (·.dotted < ·.dotted)
  distinct : v.imports.Pairwise (·.simpleName ≠ ·.simpleName)
  unreserved : ∀ q ∈ v.imports, ∀ simple b, v.scope.binding? simple = some b →
    b.reserved = true → q.simpleName ≠ simple

/-- A unit is rendered well if its text starts with its preamble and its scope is in order. -/
theorem wellRendered_of_text (htext : v.text = preamble v.target ++ body)
    (hcoherent : v.scope.Coherent) (hnames : v.scope.BindsOnly TypeName.Obtainable) :
    WellRendered v.target v := by
  have hvalid : ∀ q ∈ v.imports, q.Valid := fun q hq =>
    valid_of_mem_imports hcoherent hnames hq
  refine ⟨by rw [body_of_text htext, htext], ?_, renderWithImports_of_ne_nil,
    cutLines_renderWithImports htext hvalid, pairwise_dotted_imports hcoherent hvalid,
    pairwise_simpleName_imports hcoherent, ?_⟩
  · intro hnil
    rw [renderWithImports, hnil]
  · rintro q hq simple b hb hreserved rfl
    obtain ⟨hbinding, -⟩ := (mem_imports_iff hcoherent).1 hq
    rw [hbinding] at hb
    rw [← Option.some.inj hb] at hreserved
    exact absurd hreserved (by simp)

/-- **Every file of a run is in order.**  After any edits, those that failed included, the text
starts with the preamble, and the finished file has the block of imports put in after it and is
otherwise unchanged.  The block goes up strictly in the dotted names, and it has no simple name
twice and none that is reserved. -/
theorem wellRendered_editAll (hstart : start visible target companions features = .ok u)
    (hvisible : ∀ q ∈ visible target, q.Obtainable) {edits : List Edit}
    (hasked : ∀ q, Edit.spell q ∈ edits → q.Obtainable) :
    WellRendered target (u.editAll edits) := by
  obtain ⟨history, hreach⟩ := Reaches.refl (u := u).editAll edits
  have htarget : (u.editAll edits).target = target :=
    hreach.target_eq.trans (target_of_start hstart)
  obtain ⟨body, htext⟩ := hreach.text_eq_append
  have hpreamble : u.text = preamble target := by
    obtain ⟨-, scope, -, rfl⟩ := start_eq_ok_iff.1 hstart
    rfl
  rw [hpreamble, ← htarget] at htext
  have hwell := wellRendered_of_text htext (hreach.coherent (coherent_of_start hstart))
    (bindsOnly_editAll (bindsOnly_of_start hstart hvisible) (fun _ hq => hq.obtainable) hasked)
  rwa [htarget] at hwell

/-- A visible list is imported though nothing mentions it, and takes the simple name from another
list.  The brace is an error and stays in the text; a name that no parser would read is asked for
after it, and not imported. -/
theorem wellRendered_editAll_lists :
    ∃ u v,
      start (Visibility.only [⟨["java", "util"], ["List"]⟩, JavaLang.named "Object"])
        ⟨["com", "example"], ["Widget"]⟩ [] .empty = .ok u ∧
      v = u.editAll [.type ⟨["java", "util"], ["Map"]⟩, .text " ",
        .type ⟨["java", "awt"], ["List"]⟩, .text " \x7d", .spell (JavaLang.named "no name")] ∧
      WellRendered ⟨["com", "example"], ["Widget"]⟩ v ∧
      v.renderWithImports =
        "// Autogenerated code. Do not modify.\npackage com.example;\n\n" ++
          "import java.util.List;\nimport java.util.Map;\n\nMap java.awt.List \x7d" := by
  let visible := Visibility.only [⟨["java", "util"], ["List"]⟩, JavaLang.named "Object"]
  let target : TypeName := ⟨["com", "example"], ["Widget"]⟩
  let edits : List Edit := [.type ⟨["java", "util"], ["Map"]⟩, .text " ",
    .type ⟨["java", "awt"], ["List"]⟩, .text " \x7d", .spell (JavaLang.named "no name")]
  let u := fresh target .empty ((Scope.empty.claim target true).see visible target)
  have hstart : start visible target [] .empty = .ok u :=
    start_alone visible target .empty (by decide)
  have hvisible : ∀ q ∈ visible target, q.Obtainable := by
    intro q hq
    rcases List.mem_cons.1 hq with rfl | hq
    · exact TypeName.Valid.obtainable (by decide)
    · rw [List.mem_singleton.1 hq]
      exact .javaLang "Object"
  have hasked : ∀ q, Edit.spell q ∈ edits → q.Obtainable := by
    intro q hq
    have hname : q = JavaLang.named "no name" := by simpa [edits] using hq
    rw [hname]
    exact .javaLang "no name"
  have hwell : WellRendered target (u.editAll edits) := wellRendered_editAll hstart hvisible hasked
  have hscope : (u.editAll edits).scope.toList =
      [("List", ⟨⟨["java", "util"], ["List"]⟩, false⟩),
        ("Map", ⟨⟨["java", "util"], ["Map"]⟩, false⟩),
        ("Object", ⟨JavaLang.named "Object", false⟩),
        ("Widget", ⟨target, true⟩),
        ("no name", ⟨JavaLang.named "no name", false⟩)] := by
    decide +kernel
  have htarget : (u.editAll edits).target = target := by decide +kernel
  have himports : (u.editAll edits).imports =
      [⟨["java", "util"], ["List"]⟩, ⟨["java", "util"], ["Map"]⟩] := by
    rw [imports, hscope, htarget]
    exact List.mergeSort_of_pairwise (by decide +kernel)
  have hbody : (u.editAll edits).body = "Map java.awt.List \x7d" := by decide +kernel
  have himported : (u.editAll edits).imports ≠ [] := by
    rw [himports]
    exact List.cons_ne_nil _ _
  refine ⟨u, u.editAll edits, hstart, rfl, hwell, ?_⟩
  rw [hwell.spliced himported, himports, hbody]
  decide +kernel

end CompilationUnit
end JavaUnit
