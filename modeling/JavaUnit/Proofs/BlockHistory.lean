import JavaUnit.Draft

/-!
# The history of the open blocks

In a run blocks are opened and closed.  The history lists these steps, the latest first, and
says which blocks are open after them without looking at any draft: a block is known by the
number of steps before the one that opened it, and `BlockStep.openBlocks` keeps the blocks that
have been opened and not closed, innermost first.

On this rests the rule for declared types.  A type shadows from the step that opens its body for
as long as the block around that body is open, whatever else is opened and closed in between
(`BlockStep.Shadowing`).  The block around it is the one that was innermost at that step; a body
that no block is around shadows for good.

## Telling blocks by depth

A draft does not know one block from another, it counts.  That counting is enough comes down to
one fact about stacks: as long as a block is open, so are all blocks around it, in the same
places as before (`openBlocks_suffix_of_mem`).  So the block around a body is open exactly while
the stack is at least as deep as it was, and `declared_opened_iff` and `declared_closed_iff` say
what one step makes of the declarations in force.
-/

namespace JavaUnit

/-- What a step of a run does to the open blocks. -/
inductive BlockStep where
  /-- Opens a block of this kind. -/
  | opened (kind : BlockKind)
  /-- Closes the innermost block. -/
  | closed
  deriving DecidableEq, Repr

namespace BlockStep

/-- The blocks that are open after the steps, innermost first. -/
def openBlocks : List BlockStep → List Nat
  | [] => []
  | opened _ :: past => past.length :: openBlocks past
  | closed :: past => (openBlocks past).tail

/-- The innermost block that is open after the steps. -/
def innermost? (history : List BlockStep) : Option Nat :=
  (openBlocks history).head?

/-- The type `q` shadows after the steps: one of them opened its body, and the block that was
innermost before that step, if there was one, has not been closed since. -/
def Shadowing (history : List BlockStep) (q : TypeName) : Prop :=
  ∃ later past, history = later ++ opened (.type q) :: past ∧
    ∀ b, innermost? past = some b → b ∈ openBlocks history

/-- The same with the number `n` of blocks that were open before the step. -/
def Declared (history : List BlockStep) (n : Nat) (q : TypeName) : Prop :=
  ∃ later past, history = later ++ opened (.type q) :: past ∧ (openBlocks past).length = n ∧
    ∀ b, innermost? past = some b → b ∈ openBlocks history

@[simp] theorem openBlocks_nil : openBlocks [] = [] := rfl

@[simp] theorem openBlocks_opened (kind : BlockKind) (past : List BlockStep) :
    openBlocks (opened kind :: past) = past.length :: openBlocks past := rfl

@[simp] theorem openBlocks_closed (past : List BlockStep) :
    openBlocks (closed :: past) = (openBlocks past).tail := rfl

variable {history past later : List BlockStep} {b n : Nat} {q : TypeName}

theorem shadowing_iff_exists_declared : Shadowing history q ↔ ∃ n, Declared history n q := by
  constructor
  · rintro ⟨later, past, hsplit, hopen⟩
    exact ⟨_, later, past, hsplit, rfl, hopen⟩
  · rintro ⟨n, later, past, hsplit, -, hopen⟩
    exact ⟨later, past, hsplit, hopen⟩

theorem mem_openBlocks_of_innermost? (h : innermost? past = some b) : b ∈ openBlocks past :=
  List.mem_of_head? h

/-! ## The stack of open blocks -/

/-- A block was opened at a step of the history. -/
theorem lt_length_of_mem_openBlocks (h : b ∈ openBlocks history) : b < history.length := by
  induction history with
  | nil => exact absurd h List.not_mem_nil
  | cons step past ih =>
      rw [List.length_cons]
      cases step with
      | opened kind =>
          rw [openBlocks_opened, List.mem_cons] at h
          rcases h with rfl | h
          · exact Nat.lt_succ_self _
          · exact Nat.lt_succ_of_lt (ih h)
      | closed => exact Nat.lt_succ_of_lt (ih (List.mem_of_mem_tail h))

/-- The blocks further in were opened later. -/
theorem pairwise_openBlocks (history : List BlockStep) :
    (openBlocks history).Pairwise fun inner outer => outer < inner := by
  induction history with
  | nil => exact List.Pairwise.nil
  | cons step past ih =>
      cases step with
      | opened kind => exact List.pairwise_cons.2 ⟨fun b hb => lt_length_of_mem_openBlocks hb, ih⟩
      | closed => exact ih.sublist (List.tail_sublist _)

/-- **While a block is open, the blocks around it stay where they are.**  The induction is on the
later steps.  An opened block comes on top; a closed one is further in than `b`, since `b` is
still open after it and no block is opened twice. -/
theorem openBlocks_suffix_of_mem (hpast : innermost? past = some b)
    (h : b ∈ openBlocks (later ++ past)) : openBlocks past <:+ openBlocks (later ++ past) := by
  induction later with
  | nil => exact List.suffix_refl _
  | cons step later ih =>
      rw [List.cons_append] at h ⊢
      cases step with
      | opened kind =>
          rw [openBlocks_opened, List.mem_cons] at h
          rcases h with hb | h
          · have hlt := lt_length_of_mem_openBlocks (mem_openBlocks_of_innermost? hpast)
            rw [hb, List.length_append] at hlt
            omega
          · exact (ih h).trans (List.suffix_cons _ _)
      | closed =>
          rw [openBlocks_closed] at h ⊢
          have hsuffix := ih (List.mem_of_mem_tail h)
          have hpairs := pairwise_openBlocks (later ++ past)
          cases hopen : openBlocks (later ++ past) with
          | nil =>
              rw [hopen] at h
              exact absurd h List.not_mem_nil
          | cons top rest =>
              rw [hopen] at hsuffix h hpairs
              rcases List.suffix_cons_iff.1 hsuffix with hall | hrest
              · -- then the closed block is `b`, which is still open
                have htop : top = b := by
                  rw [innermost?, hall, List.head?_cons] at hpast
                  exact Option.some.inj hpast
                have hlt := (List.pairwise_cons.1 hpairs).1 b h
                omega
              · exact hrest

/-! ## Declarations step by step -/

/-- Opening a block puts its type in force, if it is the body of one, and ends nothing. -/
theorem declared_opened_iff {kind : BlockKind} :
    Declared (opened kind :: history) n q ↔
      (kind = .type q ∧ (openBlocks history).length = n) ∨ Declared history n q := by
  constructor
  · rintro ⟨later, past, hsplit, hn, hopen⟩
    cases later with
    | nil =>
        obtain ⟨hkind, rfl⟩ := List.cons.inj hsplit
        exact .inl ⟨opened.inj hkind, hn⟩
    | cons step later =>
        obtain ⟨rfl, rfl⟩ := List.cons.inj hsplit
        refine .inr ⟨later, past, rfl, hn, fun b hb => ?_⟩
        have hlt := lt_length_of_mem_openBlocks (mem_openBlocks_of_innermost? hb)
        rcases List.mem_cons.1 (hopen b hb) with hnew | hold
        · rw [hnew, List.append_eq, List.length_append, List.length_cons] at hlt
          omega
        · exact hold
  · rintro (⟨rfl, hn⟩ | ⟨later, past, rfl, hn, hopen⟩)
    · exact ⟨[], history, rfl, hn, fun b hb =>
        List.mem_cons_of_mem _ (mem_openBlocks_of_innermost? hb)⟩
    · exact ⟨opened kind :: later, past, rfl, hn, fun b hb =>
        List.mem_cons_of_mem _ (hopen b hb)⟩

/-- Closing a block ends the declarations made right inside it.  They are told by the number of
blocks that were open when they were made. -/
theorem declared_closed_iff {top : Nat} {rest : List Nat} (h : openBlocks history = top :: rest) :
    Declared (closed :: history) n q ↔ Declared history n q ∧ n ≤ rest.length := by
  have hclosed : openBlocks (closed :: history) = rest := by
    rw [openBlocks_closed, h, List.tail_cons]
  constructor
  · rintro ⟨later, past, hsplit, hn, hopen⟩
    cases later with
    | nil => exact absurd (List.cons.inj hsplit).1 (by simp)
    | cons step later =>
        obtain ⟨rfl, hhistory⟩ := List.cons.inj hsplit
        refine ⟨⟨later, past, hhistory, hn, fun b hb => ?_⟩, ?_⟩
        · have hmem := hopen b hb
          rw [hclosed] at hmem
          rw [h]
          exact List.mem_cons_of_mem _ hmem
        · cases hinner : innermost? past with
          | none =>
              rw [innermost?, List.head?_eq_none_iff] at hinner
              rw [← hn, hinner]
              exact Nat.zero_le _
          | some b =>
              have hmem := hopen b hinner
              have happend : closed :: history =
                  (closed :: later ++ [opened (.type q)]) ++ past := by
                rw [hhistory]
                simp
              rw [happend] at hmem
              have hlength := (openBlocks_suffix_of_mem hinner hmem).length_le
              rw [← happend, hclosed] at hlength
              omega
  · rintro ⟨⟨later, past, hhistory, hn, hopen⟩, hle⟩
    refine ⟨closed :: later, past, by rw [hhistory]; rfl, hn, fun b hb => ?_⟩
    have hmem := hopen b hb
    have happend : history = (later ++ [opened (.type q)]) ++ past := by
      rw [hhistory]
      simp
    rw [happend] at hmem
    have hsuffix := openBlocks_suffix_of_mem hb hmem
    rw [← happend, h] at hsuffix
    rw [hclosed]
    rcases List.suffix_cons_iff.1 hsuffix with hall | hrest
    · -- the block around the body would be the one that was closed
      have hlength := congrArg List.length hall
      rw [List.length_cons] at hlength
      omega
    · exact hrest.mem (mem_openBlocks_of_innermost? hb)

end BlockStep
end JavaUnit
