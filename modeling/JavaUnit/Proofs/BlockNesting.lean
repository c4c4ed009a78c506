import JavaUnit.Proofs.Effects
import JavaUnit.Proofs.NestedNames
import JavaUnit.Proofs.Spelling

/-!
# The open blocks are well formed

The blocks of a draft are numbered from the outside, and the types whose bodies they are nest: each
is named after the next type around it, with blocks of code left out.  So the types can be read off
the innermost one, by going from a name to the name around it, and the stack of blocks tells nothing
else (`Block.Nested.types_eq`).  Every type whose body is open is visible, as long as it is open.

None of this depends on where the events come from.  They may be events that no text gives rise to,
and they may go on after a failure: `Draft.wellFormed_handleAll` holds of all of them.

A last point is that a name which a header waits with can always be given to the type.  A header
remembers identifiers only (`Header.NamesType`), and the names around are valid, so the new name is
valid too.  The case in `Draft.openBlock` for a name that cannot be given is never met.
-/

namespace JavaUnit

namespace Header

variable {h : Header}

/-! ## Names that a header waits with -/

/-- The name that the header waits with, if it waits for a body, is an identifier and does not
announce a declaration itself. -/
def NamesType (h : Header) : Prop :=
  ∀ name, h.pending = .named name → isIdentifier name = true ∧ isDeclarationKeyword name = false

theorem namesType_of_pending_eq_nothing (hpending : h.pending = .nothing) : h.NamesType := by
  intro name hname
  rw [hpending] at hname
  exact absurd hname (by simp)

/-- A word becomes the name of a type only if it is an identifier, and a word that announces a
declaration does not become one. -/
theorem NamesType.endWord (hnames : h.NamesType) : h.endWord.NamesType := by
  unfold Header.endWord
  split
  · exact hnames
  · split
    · exact hnames
    · split
      · intro name hname
        exact absurd hname (by simp)
      · rename_i hkeyword
        split
        · intro name hname
          dsimp only at hname
          split at hname
          · rename_i hidentifier
            obtain rfl := Pending.named.inj hname
            exact ⟨hidentifier, by simpa using hkeyword⟩
          · exact absurd hname (by simp)
        · exact hnames

/-- A character that goes on with a word leaves a declaration where it is; any other ends the word
and may put an end to the declaration. -/
theorem pending_read (h : Header) (c : Char) :
    (h.read c).pending =
      if h.continues c = true then h.pending
      else if h.endWord.cancels c = true then .nothing else h.endWord.pending := by
  unfold Header.read
  by_cases hcontinues : h.continues c = true
  · simp only [hcontinues, if_true]
    split <;> rfl
  · by_cases hcancels : h.endWord.cancels c = true
    · simp only [hcontinues, hcancels, if_true]
      split <;> rfl
    · simp only [hcontinues, hcancels]
      split <;> rfl

theorem NamesType.read (hnames : h.NamesType) (c : Char) : (h.read c).NamesType := by
  intro name hname
  rw [pending_read] at hname
  split at hname
  · exact hnames name hname
  · split at hname
    · exact absurd hname (by simp)
    · exact hnames.endWord name hname

theorem NamesType.readSpelling (hnames : h.NamesType) (spelling : String) :
    (h.readSpelling spelling).NamesType := by
  unfold Header.readSpelling
  dsimp only
  split
  · have hword : Header.NamesType
        { h.endWord with word := spelling, afterDot := h.endWord.lastCode? == some '.' } :=
      hnames.endWord
    exact hword.endWord
  · exact hnames.endWord

/-- A `{` takes the name that the header waits with once the word before it has ended. -/
theorem openBlock_fst_eq_some_iff {name : String} :
    h.openBlock.1 = some name ↔ h.endWord.pending = .named name := by
  simp only [Header.openBlock]
  cases h.endWord.pending with
  | nothing => simp
  | keyword => simp
  | named name' => simp

end Header

/-! ## Blocks in blocks -/

namespace Block

/-- The types whose bodies the blocks are, innermost first. -/
def types (blocks : List Block) : List TypeName :=
  blocks.filterMap (·.kind.type?)

/-- Blocks are nested if each is numbered after those around it and each type is named in `package`
after the next type around it. -/
inductive Nested (package : List String) : List Block → Prop where
  | nil : Nested package []
  | code {outer : List Block} (h : Nested package outer) :
      Nested package (⟨.code, outer.length + 1⟩ :: outer)
  | type {outer : List Block} {q : TypeName} (h : Nested package outer) (hvalid : q.Valid)
      (hpackage : q.package = package)
      (hpath : q.path = (types outer).head?.elim [] TypeName.path ++ [q.simpleName]) :
      Nested package (⟨.type q, outer.length + 1⟩ :: outer)

variable {package : List String} {blocks inner outer : List Block} {block : Block} {q : TypeName}

@[simp] theorem types_nil : types [] = [] := rfl

@[simp] theorem types_cons_code (n : Nat) (outer : List Block) :
    types (⟨.code, n⟩ :: outer) = types outer := rfl

@[simp] theorem types_cons_type (q : TypeName) (n : Nat) (outer : List Block) :
    types (⟨.type q, n⟩ :: outer) = q :: types outer := rfl

/-- The innermost block can be taken away. -/
theorem Nested.tail (h : Nested package blocks) : Nested package blocks.tail := by
  cases h with
  | nil => exact .nil
  | code h => exact h
  | type h hvalid hpackage hpath => exact h

theorem Nested.of_append (h : Nested package (inner ++ outer)) : Nested package outer := by
  induction inner with
  | nil => exact h
  | cons block inner ih => exact ih h.tail

/-- The `i`-th block from the outside, counted from 0, has the number `i + 1`. -/
theorem Nested.depth_of_getElem? (h : Nested package blocks) {i : Nat}
    (hi : blocks.reverse[i]? = some block) : block.depth = i + 1 := by
  have hcons {kind : BlockKind} {outer : List Block}
      (ih : outer.reverse[i]? = some block → block.depth = i + 1)
      (hi : (⟨kind, outer.length + 1⟩ :: outer).reverse[i]? = some block) :
      block.depth = i + 1 := by
    rw [List.reverse_cons] at hi
    by_cases hlt : i < outer.reverse.length
    · rw [List.getElem?_append_left hlt] at hi
      exact ih hi
    · rw [List.getElem?_append_right (Nat.le_of_not_lt hlt), List.getElem?_singleton] at hi
      split at hi
      · rename_i hzero
        rw [List.length_reverse] at hlt hzero
        rw [← Option.some.inj hi]
        show outer.length + 1 = i + 1
        omega
      · exact absurd hi (by simp)
  induction h with
  | nil => exact absurd hi (by simp)
  | code h ih => exact hcons ih hi
  | type h hvalid hpackage hpath ih => exact hcons ih hi

theorem Nested.depth_le (h : Nested package blocks) (hmem : block ∈ blocks) :
    block.depth ≤ blocks.length := by
  obtain ⟨i, hi⟩ := List.mem_iff_getElem?.1 (List.mem_reverse.2 hmem)
  obtain ⟨hlt, -⟩ := List.getElem?_eq_some_iff.1 hi
  rw [List.length_reverse] at hlt
  rw [h.depth_of_getElem? hi]
  exact hlt

/-- Every type whose body is open has a valid name in the package. -/
theorem Nested.of_mem_types (h : Nested package blocks) (hmem : q ∈ types blocks) :
    q.Valid ∧ q.package = package := by
  induction h with
  | nil => simp at hmem
  | code h ih =>
      rw [types_cons_code] at hmem
      exact ih hmem
  | type h hvalid hpackage hpath ih =>
      rw [types_cons_type, List.mem_cons] at hmem
      rcases hmem with rfl | hmem
      · exact ⟨hvalid, hpackage⟩
      · exact ih hmem

/-- **The innermost type tells all types around it.**  The induction is on the blocks: a block of
code adds no type, and the body of a type adds one whose enclosing type is the next one out. -/
theorem Nested.types_eq (h : Nested package blocks) :
    types blocks = (types blocks).head?.elim [] fun q => q :: q.enclosings := by
  induction h with
  | nil => rfl
  | code h ih =>
      rw [types_cons_code]
      exact ih
  | @type outer q h hvalid hpackage hpath ih =>
      rw [types_cons_type, List.head?_cons, Option.elim_some]
      congr 1
      cases hhead : (types outer).head? with
      | none =>
          have hnil : types outer = [] := List.head?_eq_none_iff.1 hhead
          have houtermost : q.enclosing? = none := by
            rw [TypeName.enclosing?, hpath, hhead]
            rfl
          rw [hnil, TypeName.enclosings_of_eq_none houtermost]
      | some o =>
          obtain ⟨hvalid', hpackage'⟩ := h.of_mem_types (List.mem_of_head? hhead)
          have hq : (⟨o.package, o.path ++ [q.simpleName]⟩ : TypeName) = q := by
            rw [hhead, Option.elim_some] at hpath
            rw [hpackage', ← hpackage, ← hpath]
          have henclosing : q.enclosing? = some o := by
            have hconcat := TypeName.enclosing?_concat o.package hvalid'.1 q.simpleName
            rwa [hq] at hconcat
          rw [hhead] at ih
          rw [ih, TypeName.enclosings_of_eq_some henclosing]
          rfl

end Block

namespace Draft

variable {package : List String} {d : Draft}

/-! ## What every event preserves -/

/-- The innermost type whose body is open is the first in the list of them. -/
theorem enclosingType?_eq (d : Draft) : d.enclosingType? = (Block.types d.blocks).head? :=
  List.head?_filterMap.symm

/-- The blocks of the draft are nested, the types whose bodies they are can be seen from the block
around each, and the header waits with a name for a type. -/
structure WellNested (package : List String) (d : Draft) : Prop where
  package_eq : d.package = package
  nested : Block.Nested package d.blocks
  visible : ∀ block ∈ d.blocks, ∀ q, block.kind = .type q → ⟨block.depth - 1, q⟩ ∈ d.shadows
  header : d.header.NamesType

/-- A type declared in nested blocks is named after the next type around it. -/
theorem WellNested.of_declared (h : d.WellNested package) {simple : String} {q : TypeName}
    (hq : d.declared simple = .ok q) :
    q.Valid ∧ q.package = package ∧
      q.path = (Block.types d.blocks).head?.elim [] TypeName.path ++ [q.simpleName] := by
  have hvalid := valid_of_declared hq
  have hpath : q.path = (Block.types d.blocks).head?.elim [] TypeName.path ++ [simple] ∧
      q.package = package := by
    unfold declared at hq
    rw [enclosingType?_eq] at hq
    cases hhead : (Block.types d.blocks).head? with
    | none =>
        rw [hhead] at hq
        obtain rfl := (TypeName.ofSegments_eq_ok_iff.1 hq).1
        exact ⟨rfl, h.package_eq⟩
    | some outer =>
        rw [hhead] at hq
        obtain rfl := (TypeName.ofSegments_eq_ok_iff.1 hq).1
        exact ⟨rfl, (h.nested.of_mem_types (List.mem_of_head? hhead)).2⟩
  refine ⟨hvalid, hpath.2, ?_⟩
  have hsimple : q.simpleName = simple := by
    rw [TypeName.simpleName, hpath.1, List.getLast?_concat]
    rfl
  rw [hsimple]
  exact hpath.1

/-- Closing a block leaves the types visible that were declared outside of it. -/
theorem WellNested.visible_tail (h : d.WellNested package) {n : Nat} (hdepth : d.depth = n + 1)
    {block : Block} (hmem : block ∈ d.blocks.tail) {q : TypeName} (hkind : block.kind = .type q) :
    ⟨block.depth - 1, q⟩ ∈ d.shadows.filter (·.depth ≤ n) := by
  have hle := h.nested.tail.depth_le hmem
  have hlength : d.blocks.tail.length = n := by
    rw [List.length_tail]
    show d.depth - 1 = n
    omega
  refine List.mem_filter.2 ⟨h.visible block (List.mem_of_mem_tail hmem) q hkind, ?_⟩
  refine decide_eq_true ?_
  show block.depth - 1 ≤ n
  omega

/-- **Whatever event comes, the blocks stay nested.** -/
theorem WellNested.take (h : d.WellNested package) (event : Event) :
    (d.take event).state.WellNested package := by
  have htaken := d.taken event
  generalize d.take event = o at htaken ⊢
  cases htaken with
  | written c region =>
      refine ⟨h.package_eq, h.nested, h.visible, ?_⟩
      cases region with
      | code => exact h.header.read c
      | literal => exact h.header.endWord
      | comment => exact h.header.endWord
  | openedCode =>
      refine ⟨h.package_eq, .code h.nested, ?_, Header.namesType_of_pending_eq_nothing rfl⟩
      intro block hmem q hkind
      rcases List.mem_cons.1 hmem with rfl | hmem
      · exact absurd hkind (by simp)
      · exact h.visible block hmem q hkind
  | openedType hname hq =>
      obtain ⟨hvalid, hpackage, hpath⟩ := h.of_declared hq
      refine ⟨h.package_eq, .type h.nested hvalid hpackage hpath, ?_,
        Header.namesType_of_pending_eq_nothing rfl⟩
      intro block hmem q hkind
      rcases List.mem_cons.1 hmem with rfl | hmem
      · obtain rfl := BlockKind.type.inj hkind
        exact List.mem_cons_self
      · exact List.mem_cons_of_mem _ (h.visible block hmem q hkind)
  | closed hdepth =>
      exact ⟨h.package_eq, h.nested.tail, fun block hmem q => h.visible_tail hdepth hmem,
        Header.namesType_of_pending_eq_nothing rfl⟩
  | unbalanced hdepth =>
      exact ⟨h.package_eq, h.nested, h.visible, Header.namesType_of_pending_eq_nothing rfl⟩
  | started region => exact ⟨h.package_eq, h.nested, h.visible, h.header.endWord⟩
  | replaced hpayload hparse =>
      rename_i payload region q
      refine ⟨h.package_eq, h.nested, h.visible, ?_⟩
      cases region with
      | code => exact h.header.readSpelling _
      | literal => exact h.header
      | comment => exact h.header
  | _ => exact ⟨h.package_eq, h.nested, h.visible, h.header⟩

theorem WellNested.handle (h : d.WellNested package) (event : Event) :
    (d.handle event).state.WellNested package := by
  cases hfailed : d.failedAt? with
  | some offset =>
      rw [handle_of_failed hfailed]
      exact h
  | none =>
      obtain ⟨failure, hstate⟩ := state_handle hfailed event
      have htake := h.take event
      rw [hstate]
      exact ⟨htake.package_eq, htake.nested, htake.visible, htake.header⟩

/-- Takes the events in turn, those after a failure included. -/
def handleAll (d : Draft) (events : List Event) : Draft :=
  events.foldl (fun d event => (d.handle event).state) d

theorem WellNested.handleAll (h : d.WellNested package) (events : List Event) :
    (d.handleAll events).WellNested package := by
  induction events generalizing d with
  | nil => exact h
  | cons event events ih => exact ih (h.handle event)

/-- A name that the header waits with can be given to a type. -/
theorem WellNested.exists_declared (h : d.WellNested package)
    (hpackage : ∀ s ∈ package, isIdentifier s = true) {simple : String}
    (hname : d.header.openBlock.1 = some simple) : ∃ q, d.declared simple = .ok q := by
  have hsimple : isIdentifier simple = true :=
    (h.header.endWord simple (Header.openBlock_fst_eq_some_iff.1 hname)).1
  have hbuilt {package' path : List String} (hsegments : ∀ s ∈ package' ++ path,
      isIdentifier s = true) :
      ∃ q, TypeName.ofSegments package' (path ++ [simple]) = .ok q := by
    refine ⟨_, TypeName.ofSegments_eq_ok_iff.2 ⟨rfl, by simp, ?_⟩⟩
    intro s hs
    rw [TypeName.segments, ← List.append_assoc, List.mem_append, List.mem_singleton] at hs
    rcases hs with hs | rfl
    · exact hsegments s hs
    · exact hsimple
  unfold declared
  rw [enclosingType?_eq]
  cases hhead : (Block.types d.blocks).head? with
  | none =>
      have hsegments : ∀ s ∈ d.package ++ [], isIdentifier s = true := by
        rw [List.append_nil, h.package_eq]
        exact hpackage
      exact hbuilt hsegments
  | some outer => exact hbuilt (h.nested.of_mem_types (List.mem_of_head? hhead)).1.2

/-! ## The blocks after any events -/

/-- What there is to say of the open blocks of a draft for a unit in `package`. -/
structure WellFormed (package : List String) (d : Draft) : Prop where
  /-- The blocks are numbered from the outside. -/
  depth : ∀ i block, d.blocks.reverse[i]? = some block → block.depth = i + 1
  /-- Each type has a valid name in the package, which is the name of the next type around it with
  one segment more, or has one segment in all if there is none. -/
  named : ∀ inner block outer q, d.blocks = inner ++ block :: outer → block.kind = .type q →
    q.Valid ∧ q.package = package ∧
      q.path = (Block.types outer).head?.elim [] TypeName.path ++ [q.simpleName]
  /-- The innermost type tells the others. -/
  enclosing : d.enclosingType? = (Block.types d.blocks).head? ∧
    Block.types d.blocks = d.enclosingType?.elim [] fun q => q :: q.enclosings
  /-- Each type is visible. -/
  shadowing : ∀ q ∈ Block.types d.blocks, ∃ shadow ∈ d.shadows, shadow.type = q
  /-- The type that a `{` declares next can be given its name. -/
  declares : ∀ simple, d.header.openBlock.1 = some simple → ∃ q, d.declared simple = .ok q

theorem WellNested.wellFormed (h : d.WellNested package)
    (hpackage : ∀ s ∈ package, isIdentifier s = true) : d.WellFormed package where
  depth := fun _ _ hi => h.nested.depth_of_getElem? hi
  named := by
    intro inner block outer q hsplit hkind
    have hnested : Block.Nested package (block :: outer) := by
      have hblocks : Block.Nested package (inner ++ block :: outer) := by
        rw [← hsplit]
        exact h.nested
      exact hblocks.of_append
    cases hnested with
    | code _ => exact absurd hkind (by simp)
    | type _ hvalid hpackage hpath =>
        obtain rfl := BlockKind.type.inj hkind
        exact ⟨hvalid, hpackage, hpath⟩
  enclosing := by
    rw [enclosingType?_eq]
    exact ⟨rfl, h.nested.types_eq⟩
  shadowing := by
    intro q hq
    obtain ⟨block, hmem, htype⟩ := List.mem_filterMap.1 hq
    have hkind : block.kind = .type q := by
      cases hkind : block.kind with
      | code =>
          rw [hkind] at htype
          exact absurd htype (by simp [BlockKind.type?])
      | type p =>
          rw [hkind] at htype
          rw [Option.some.inj htype]
    exact ⟨_, h.visible block hmem q hkind, rfl⟩
  declares := fun _ hname => h.exists_declared hpackage hname

/-- **After any events at all the open blocks are well formed**, in a package of identifiers and
over whatever text and scope the draft starts from.  The events need not come from a text, and
those after a failure are among them. -/
theorem wellFormed_handleAll (hpackage : ∀ s ∈ package, isIdentifier s = true) (text : String)
    (scope : Scope) (events : List Event) :
    (handleAll { text, scope, package } events).WellFormed package := by
  have hfresh : WellNested package { text, scope, package } :=
    ⟨rfl, .nil, fun block hmem => absurd hmem List.not_mem_nil,
      Header.namesType_of_pending_eq_nothing rfl⟩
  exact (hfresh.handleAll events).wellFormed hpackage

/-- A type in a block of code in a type, past a failure: the code is left out, and the type
further in is named after the one further out. -/
theorem wellFormed_handleAll_nested :
    ∃ d events, d = handleAll { package := ["com", "example"] } events ∧
      (∀ s ∈ ["com", "example"], isIdentifier s = true) ∧
      d.WellFormed ["com", "example"] ∧ d.isPoisoned = true ∧
      d.blocks.map Block.depth = [3, 2, 1] ∧
      d.enclosingType? = some ⟨["com", "example"], ["Outer", "Inner"]⟩ ∧
      Block.types d.blocks =
        [⟨["com", "example"], ["Outer", "Inner"]⟩, ⟨["com", "example"], ["Outer"]⟩] := by
  let code (word : String) : List Event := word.toList.map (.text · .code)
  let events : List Event :=
    code "class Outer" ++ [.blockOpen, .blockOpen] ++ code "enum Inner" ++
      [.blockOpen, .referenceEnd, .blockClose, .blockClose]
  have hpackage : ∀ s ∈ ["com", "example"], isIdentifier s = true := by decide +kernel
  have hformed := wellFormed_handleAll hpackage "" .empty events
  have hinnermost : (handleAll { package := ["com", "example"] } events).enclosingType? =
      some ⟨["com", "example"], ["Outer", "Inner"]⟩ := by
    decide +kernel
  refine ⟨_, events, rfl, hpackage, hformed, ?_, ?_, hinnermost, ?_⟩
  · decide +kernel
  · decide +kernel
  · rw [hformed.enclosing.2, hinnermost]
    show ⟨["com", "example"], ["Outer", "Inner"]⟩ ::
      TypeName.enclosings ⟨["com", "example"], ["Outer", "Inner"]⟩ = _
    rw [TypeName.enclosings_of_eq_some (e := ⟨["com", "example"], ["Outer"]⟩) (by decide),
      TypeName.enclosings_of_eq_none (by decide)]

end Draft
end JavaUnit
