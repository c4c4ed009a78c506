import JavaUnit.Proofs.BlockHistory
import JavaUnit.Proofs.EditStream
import JavaUnit.Proofs.Stream

/-!
# Runs of a unit

Whatever a unit is made with, it is made in small steps: a character is appended, or a spelling
is asked for.  `CompilationUnit.Reaches` says which units such steps lead to, failures included,
and keeps the history of the blocks along the way.  Every edit is a row of these steps
(`Reaches.edit`), so the units that are reached are the units at every point of every run, those
in the middle of a template or a reference among them.

What every step preserves holds of every unit that is reached (`Reaches.inv`).  Two invariants
are derived that way:

* until the first failure, the draft has a payload in progress exactly if the lexer is between
  the marks of a reference (`Reaches.inStep`);
* the draft has as many blocks open as the history, and among its shadows are exactly the
  declarations that the history has in force (`Reaches.records`).

The second rests on `Draft.blockEffect_handle`, which says all that an event can do to the blocks
and the shadows of a draft.
-/

namespace JavaUnit

namespace Draft

/-! ## What an event does to the blocks -/

/-- The step that leads from the open blocks of one draft to those of the next. -/
def blockStep? (before after : Draft) : Option BlockStep :=
  if before.depth < after.depth then after.blocks.head?.map fun block => .opened block.kind
  else if after.depth < before.depth then some .closed
  else none

variable {d d' : Draft}

theorem blockStep?_of_blocks_eq (h : d'.blocks = d.blocks) : d.blockStep? d' = none := by
  simp [blockStep?, depth, h]

theorem blockStep?_of_cons {block : Block} (h : d'.blocks = block :: d.blocks) :
    d.blockStep? d' = some (.opened block.kind) := by
  simp [blockStep?, depth, h]

theorem blockStep?_of_tail {n : Nat} (hn : d.depth = n + 1) (h : d'.blocks = d.blocks.tail) :
    d.blockStep? d' = some .closed := by
  have hlength : d.blocks.length = n + 1 := hn
  simp [blockStep?, depth, h, hlength]

/-- An event leaves the blocks and the shadows alone, or opens a block and makes the type whose
body it is visible, or closes the innermost block with all that was declared in it. -/
inductive BlockEffect (d d' : Draft) : Option BlockStep → Prop where
  | still (hblocks : d'.blocks = d.blocks) (hshadows : d'.shadows = d.shadows) :
      BlockEffect d d' none
  | opened (kind : BlockKind) (hblocks : d'.blocks = ⟨kind, d.depth + 1⟩ :: d.blocks)
      (hshadows : d'.shadows = kind.type?.toList.map (Shadow.mk d.depth) ++ d.shadows) :
      BlockEffect d d' (some (.opened kind))
  | closed (n : Nat) (hdepth : d.depth = n + 1) (hblocks : d'.blocks = d.blocks.tail)
      (hshadows : d'.shadows = d.shadows.filter (·.depth ≤ n)) :
      BlockEffect d d' (some .closed)

theorem BlockEffect.blockStep?_eq {step : Option BlockStep} (h : BlockEffect d d' step) :
    d.blockStep? d' = step := by
  cases h with
  | still hblocks hshadows => exact blockStep?_of_blocks_eq hblocks
  | opened kind hblocks hshadows => exact blockStep?_of_cons hblocks
  | closed n hdepth hblocks hshadows => exact blockStep?_of_tail hdepth hblocks

theorem blockEffect_take (d : Draft) (event : Event) :
    ∃ step, BlockEffect d (d.take event).state step := by
  have htaken := d.taken event
  generalize d.take event = o at htaken ⊢
  cases htaken with
  | openedCode => exact ⟨_, .opened .code rfl rfl⟩
  | openedType hname hq => exact ⟨_, .opened (.type _) rfl rfl⟩
  | closed hdepth => exact ⟨_, .closed _ hdepth rfl rfl⟩
  | _ => exact ⟨_, .still rfl rfl⟩

/-- Whatever comes, the blocks and the shadows of a draft change as one step of the history
does. -/
theorem blockEffect_handle (d : Draft) (event : Event) :
    BlockEffect d (d.handle event).state (d.blockStep? (d.handle event).state) := by
  obtain ⟨step, heffect⟩ : ∃ step, BlockEffect d (d.handle event).state step := by
    cases hfailed : d.failedAt? with
    | some offset =>
        rw [handle_of_failed hfailed]
        exact ⟨_, .still rfl rfl⟩
    | none =>
        obtain ⟨failure, hstate⟩ := state_handle hfailed event
        obtain ⟨step, htake⟩ := blockEffect_take d event
        rw [hstate]
        cases htake with
        | still hblocks hshadows => exact ⟨_, .still hblocks hshadows⟩
        | opened kind hblocks hshadows => exact ⟨_, .opened kind hblocks hshadows⟩
        | closed n hdepth hblocks hshadows => exact ⟨_, .closed n hdepth hblocks hshadows⟩
  rw [heffect.blockStep?_eq]
  exact heffect

/-- An event that is refused leaves a record of the failure. -/
theorem failedAt?_handle_of_error {event : Event} {e : EmitError}
    (h : (d.handle event).error? = some e) : (d.handle event).state.failedAt? ≠ none := by
  cases hfailed : d.failedAt? with
  | some offset =>
      rw [handle_of_failed hfailed, Outcome.state_fail, hfailed]
      exact Option.some_ne_none _
  | none =>
      cases htaken : (d.take event).error? with
      | none =>
          rw [handle_of_taken hfailed htaken, htaken] at h
          exact absurd h (by simp)
      | some e' =>
          rw [handle_of_refused hfailed htaken]
          exact Option.some_ne_none _

end Draft

namespace CompilationUnit

/-! ## Steps and runs -/

/-- What the character does to the open blocks of the unit. -/
def blockStep? (u : CompilationUnit) (c : Char) : Option BlockStep :=
  u.draft.blockStep? (u.append c).state.draft

/-- In a run that starts at `u` the unit can be `v`, with its blocks opened and closed on the way
as the history says. -/
inductive Reaches (u : CompilationUnit) : List BlockStep → CompilationUnit → Prop where
  | refl : Reaches u [] u
  | append {history : List BlockStep} {v : CompilationUnit} (h : Reaches u history v) (c : Char) :
      Reaches u ((v.blockStep? c).toList ++ history) (v.append c).state
  | spell {history : List BlockStep} {v : CompilationUnit} (h : Reaches u history v)
      (q : TypeName) : Reaches u history (v.spell q).2

variable {u v : CompilationUnit} {history : List BlockStep}

/-- A run can be gone on with where another one stopped. -/
theorem Reaches.trans {w : CompilationUnit} {later : List BlockStep} (h : Reaches u history v)
    (h' : Reaches v later w) : Reaches u (later ++ history) w := by
  induction h' with
  | refl => exact h
  | append h' c ih =>
      rw [List.append_assoc]
      exact ih.append c
  | spell h' q ih => exact ih.spell q

/-- What every step preserves holds of every unit that is reached. -/
theorem Reaches.inv {P : CompilationUnit → Prop} (happend : ∀ v c, P v → P (v.append c).state)
    (hspell : ∀ v q, P v → P (v.spell q).2) (hu : P u) (h : Reaches u history v) : P v := by
  induction h with
  | refl => exact hu
  | append h c ih => exact happend _ c ih
  | spell h q ih => exact hspell _ q ih

/-- A stream is a row of steps, up to the character that fails. -/
theorem Reaches.appendList (h : Reaches u history v) (cs : List Char) :
    ∃ later, Reaches u (later ++ history) (v.appendList cs).state := by
  induction cs generalizing history v with
  | nil => exact ⟨[], h⟩
  | cons c cs ih =>
      rw [appendList_cons]
      cases herror : (v.append c).error? with
      | some e =>
          rw [Outcome.andThen_of_error herror]
          exact ⟨_, h.append c⟩
      | none =>
          rw [Outcome.andThen_of_ok herror]
          obtain ⟨later, hlater⟩ := ih (h.append c)
          exact ⟨later ++ (v.blockStep? c).toList, by rwa [List.append_assoc]⟩

/-- An edit is a row of steps. -/
theorem Reaches.edit (h : Reaches u history v) (e : Edit) :
    ∃ later, Reaches u (later ++ history) (v.edit e).state := by
  rcases v.edit_cases e with ⟨q, rfl⟩ | hstate
  · exact ⟨[], h.spell q⟩
  · rw [hstate]
    exact h.appendList e.stream

/-- A run of edits leads to a unit that is reached. -/
theorem Reaches.editAll (h : Reaches u history v) (edits : List Edit) :
    ∃ later, Reaches u (later ++ history) (v.editAll edits) := by
  induction edits generalizing history v with
  | nil => exact ⟨[], h⟩
  | cons e edits ih =>
      obtain ⟨later, hlater⟩ := h.edit e
      obtain ⟨later', hlater'⟩ := ih hlater
      exact ⟨later' ++ later, by rwa [List.append_assoc]⟩

/-- What every character preserves, and every spelling that the edits ask for, holds after the
edits. -/
theorem editAll_inv {P : CompilationUnit → Prop} {edits : List Edit}
    (happend : ∀ v c, P v → P (v.append c).state)
    (hspell : ∀ v q, Edit.spell q ∈ edits → P v → P (v.spell q).2) (hu : P u) :
    P (u.editAll edits) := by
  induction edits generalizing u with
  | nil => exact hu
  | cons e edits ih =>
      refine ih (fun v q hmem => hspell v q (List.mem_cons_of_mem _ hmem)) ?_
      rcases u.edit_cases e with ⟨q, rfl⟩ | hstate
      · exact hspell u q List.mem_cons_self hu
      · show P (u.edit e).state
        rw [hstate]
        exact Outcome.each_invariant happend hu e.stream

/-! ## Lexer and draft in step -/

/-- Until the first failure, a payload is in progress exactly between the marks of a
reference. -/
def InStep (u : CompilationUnit) : Prop :=
  u.draft.failedAt? = none → u.draft.reference?.isSome = u.lexer.inReference

theorem InStep.atRest (h : u.InStep) (hfailed : u.draft.failedAt? = none)
    (hmark : u.lexer.inReference = false) : u.AtRest := by
  refine ⟨hmark, ?_, hfailed⟩
  have hpayload := h hfailed
  rw [hmark] at hpayload
  exact Option.isSome_eq_false_iff.1 hpayload |> Option.isNone_iff_eq_none.1

/-- A failure is on record once a character has been refused, and for good. -/
theorem error?_append_of_failedAt? {c : Char} (h : (u.append c).state.draft.failedAt? = none) :
    u.draft.failedAt? = none ∧ (u.append c).error? = none := by
  constructor
  · by_contra hfailed
    obtain ⟨offset, hoffset⟩ := Option.ne_none_iff_exists'.1 hfailed
    rw [state_append, Draft.handle_of_failed hoffset] at h
    exact hfailed h
  · by_contra herror
    obtain ⟨e, he⟩ := Option.ne_none_iff_exists'.1 herror
    exact Draft.failedAt?_handle_of_error he h

theorem AtRest.inStep (h : u.AtRest) : u.InStep := by
  intro _
  rw [h.noPayload, h.noMark]
  rfl

/-- **Lexer and draft stay in step.**  At rest a start mark sets both off and any other character
neither.  In a reference the end mark brings both back, and any other character is collected. -/
theorem InStep.append (h : u.InStep) (c : Char) : (u.append c).state.InStep := by
  intro hafter
  obtain ⟨hfailed, herror⟩ := error?_append_of_failedAt? hafter
  cases hmark : u.lexer.inReference with
  | false =>
      have hrest := h.atRest hfailed hmark
      by_cases hs : c = Reference.startMark
      · rw [hs, hrest.append_startMark]
        rfl
      · by_cases he : c = Reference.endMark
        · have hstray := congrArg Outcome.error? hrest.reading_strayEnd
          rw [← he, Outcome.error?_map, herror] at hstray
          exact absurd hstray (by simp)
        · exact ((hrest.append_plain hs he).2 herror).inStep hafter
  | true =>
      have hsome : u.draft.reference?.isSome = true := (h hfailed).trans hmark
      obtain ⟨⟨payload, region⟩, hpayload⟩ := Option.isSome_iff_exists.1 hsome
      have hlexer : u.lexer = ⟨u.lexer.state, true⟩ := by rw [← hmark]
      have htaken : (u.draft.take (u.lexer.classify c).1).error? = none := by
        rw [← Draft.error?_handle hfailed]
        exact herror
      rw [state_append, Draft.handle_of_taken hfailed htaken]
      by_cases he : c = Reference.endMark
      · rw [he, hlexer, Lexer.classify_endMark] at htaken ⊢
        cases hparse : TypeName.parse payload with
        | ok q =>
            rw [show u.draft.take .referenceEnd = _ from
              Draft.endReference_of_parse hpayload hparse]
            rfl
        | error cause =>
            rw [show u.draft.take .referenceEnd = _ from
              Draft.endReference_of_parse_error hpayload hparse] at htaken
            exact absurd htaken (by simp)
      · rw [hlexer, Lexer.classify_inReference _ he]
        show (u.draft.readReference c).reference?.isSome = true
        rw [Draft.readReference_of_some hpayload]
        rfl

theorem Reaches.inStep (h : Reaches u history v) (hu : u.InStep) : v.InStep :=
  h.inv (fun _ c hv => hv.append c) (fun _ _ hv => hv) hu

end CompilationUnit

/-! ## Blocks and shadows -/

namespace Draft

/-- The draft has its blocks and shadows as the history says. -/
structure Records (history : List BlockStep) (d : Draft) : Prop where
  depth : (BlockStep.openBlocks history).length = d.depth
  mem_shadows_iff : ∀ shadow : Shadow,
    shadow ∈ d.shadows ↔ BlockStep.Declared history shadow.depth shadow.type

/-- What an event does to the draft, its step does to the history. -/
theorem Records.effect {history : List BlockStep} {d d' : Draft} {step : Option BlockStep}
    (h : Records history d) (heffect : BlockEffect d d' step) :
    Records (step.toList ++ history) d' := by
  cases heffect with
  | still hblocks hshadows =>
      refine ⟨?_, fun shadow => ?_⟩
      · rw [Draft.depth, hblocks]
        exact h.depth
      · rw [hshadows]
        exact h.mem_shadows_iff shadow
  | opened kind hblocks hshadows =>
      refine ⟨?_, fun shadow => ?_⟩
      · rw [Draft.depth, hblocks]
        exact congrArg Nat.succ h.depth
      · show _ ↔ BlockStep.Declared (.opened kind :: history) shadow.depth shadow.type
        rw [hshadows, List.mem_append, h.mem_shadows_iff, BlockStep.declared_opened_iff, h.depth]
        refine or_congr_left ?_
        obtain ⟨depth, q⟩ := shadow
        cases kind with
        | code => simp [BlockKind.type?]
        | type p => simp [BlockKind.type?, eq_comm, and_comm]
  | closed n hdepth hblocks hshadows =>
      have hlength := h.depth
      rw [hdepth] at hlength
      cases hopen : BlockStep.openBlocks history with
      | nil =>
          rw [hopen] at hlength
          exact absurd hlength (by simp)
      | cons top rest =>
          have hrest : rest.length = n := by
            rw [hopen, List.length_cons] at hlength
            omega
          refine ⟨?_, fun shadow => ?_⟩
          · show (BlockStep.openBlocks history).tail.length = d'.blocks.length
            rw [hblocks, List.length_tail, List.length_tail, h.depth]
            rfl
          · show _ ↔ BlockStep.Declared (.closed :: history) shadow.depth shadow.type
            rw [hshadows, List.mem_filter, h.mem_shadows_iff, BlockStep.declared_closed_iff hopen,
              hrest, decide_eq_true_iff]

end Draft

namespace CompilationUnit

variable {u v : CompilationUnit} {history : List BlockStep}

/-- The history of a run is what the draft goes by. -/
theorem Reaches.records (h : Reaches u history v) (hu : Draft.Records [] u.draft) :
    Draft.Records history v.draft := by
  induction h with
  | refl => exact hu
  | append h c ih => exact ih.effect (Draft.blockEffect_handle _ _)
  | spell h q ih => exact ⟨ih.depth, ih.mem_shadows_iff⟩

/-! ## From the start -/

variable {visible : Visibility} {target : TypeName} {companions : List TypeName}
  {features : Features}

theorem records_of_start (h : start visible target companions features = .ok u) :
    Draft.Records [] u.draft := by
  obtain ⟨-, scope, -, rfl⟩ := start_eq_ok_iff.1 h
  refine ⟨rfl, fun shadow => ⟨fun hmem => absurd hmem List.not_mem_nil, ?_⟩⟩
  rintro ⟨later, past, hsplit, -⟩
  exact absurd hsplit (by simp)

/-- A unit in a run is at rest unless it has failed or stands in a reference. -/
theorem Reaches.atRest (hstart : start visible target companions features = .ok u)
    (h : Reaches u history v) (hok : v.draft.isPoisoned = false)
    (hmark : v.lexer.inReference = false) : v.AtRest :=
  (h.inStep (atRest_of_start hstart).inStep).atRest (by simpa [Draft.isPoisoned] using hok) hmark

end CompilationUnit
end JavaUnit
