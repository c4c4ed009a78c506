import JavaUnit.Proofs.BodyCopy
import JavaUnit.Proofs.EmittedText
import JavaUnit.Proofs.ImportBlock
import JavaUnit.Proofs.JsonText
import JavaUnit.Proofs.LexicalGrammar
import JavaUnit.Proofs.Reservations
import Mathlib.Data.List.Forall2
import Mathlib.Data.List.Sort
import Mathlib.Data.String.Basic

/-!
# What a report says

The two outputs of `emit` are made from one unit: the body is rendered, and then a report on the
unit is printed or its text.  So they fail together, and what the report has for `source` is the
other output.  The rest of a report is put together from the state of the unit, and each part has
its own reason to agree with the others and with the body.

* The open blocks are counted by the draft, one event at a time.  As every event of a body that is
  rendered has been taken, they are the braces of its events (`depth_of_appendList`).  Where no
  reference comes right behind a backslash they are those of the text as well, told by the lexical
  grammar (`Faithful.exists_printed`).
* The bindings are the listing of a scope.  It has the reservations of the start, no others
  (`Reaches.owner_of_reserved`), and the names that the run has claimed.
* The imports are chosen from the bindings that are not reserved, and sorted anew by what is
  printed of them.

All this is said of what is read off the report as a JSON object, key by key (`Report.ShownBy`), and
for any way to print JSON.  That nothing of it is lost in print is `Json.pretty_injective`.
-/

namespace JavaUnit

/-! ## Open blocks -/

/-- An event that is taken moves the number of open blocks as it says. -/
theorem Draft.depth_take {d : Draft} {event : Event} (h : (d.take event).error? = none) :
    Event.closes [event] + (d.take event).state.depth = Event.opens [event] + d.depth := by
  have htaken := d.taken event
  generalize d.take event = o at htaken h ⊢
  cases htaken with
  | openedCode =>
      show 0 + (d.depth + 1) = 1 + d.depth
      omega
  | openedType hname hq =>
      show 0 + (d.depth + 1) = 1 + d.depth
      omega
  | @closed n hdepth =>
      have htail : d.blocks.tail.length = n := by
        rw [List.length_tail]
        exact Nat.sub_eq_of_eq_add hdepth
      show 1 + d.blocks.tail.length = 0 + d.depth
      omega
  | unbalanced hdepth => exact absurd h (by simp)
  | strayEnd hpayload => exact absurd h (by simp)
  | malformed hpayload hparse => exact absurd h (by simp)
  | _ => rfl

namespace CompilationUnit

variable {u v : CompilationUnit} {cs : List Char}

/-- **The open blocks are what the braces of the events leave open.** -/
theorem depth_of_appendList (hu : u.draft.failedAt? = none) (h : u.appendList cs = .ok v) :
    Event.closes (u.lexer.events cs) + v.draft.depth =
      Event.opens (u.lexer.events cs) + u.draft.depth := by
  induction cs generalizing u with
  | nil =>
      obtain rfl : u = v := congrArg Outcome.state h
      rfl
  | cons c cs ih =>
      rw [appendList_cons, Outcome.andThen_eq_ok_iff] at h
      obtain ⟨htaken, hrest⟩ := h
      rw [error?_append, Draft.error?_handle hu] at htaken
      have hstate : (u.append c).state.draft = (u.draft.take (u.lexer.classify c).1).state := by
        rw [state_append, Draft.handle_of_taken hu htaken]
      have hdepth := Draft.depth_take htaken
      rw [← hstate] at hdepth
      have hcount := ih (by rw [hstate, Draft.failedAt?_take, hu]) hrest
      rw [state_append] at hcount
      rw [Lexer.events_cons, Event.closes_cons, Event.opens_cons]
      rw [state_append] at hdepth
      simp only at hdepth hcount
      omega

/-! ## The text and its braces -/

/-- No reference of the stream starts right after a backslash in a literal. -/
def Unescaped (l : Lexer) (stream : List Char) : Prop :=
  ∀ before after, stream = before ++ Reference.startMark :: after →
    ∀ quote, (l.after before).state ≠ .escaped quote

theorem Unescaped.of_append {l : Lexer} {ds : List Char} (h : Unescaped l (cs ++ ds)) :
    Unescaped (l.after cs) ds := by
  intro before after hsplit quote
  rw [← Lexer.after_append]
  exact h (cs ++ before) after (by rw [hsplit, List.append_assoc]) quote

/-- **What a unit prints has the braces that the unit counts**, if no reference is escaped: the
spelling of a reference is read like the reference itself.  The induction is on the cutting, as
between two pieces of the stream the unit is at rest. -/
theorem Faithful.exists_printed {before : String} {stream body : List Char}
    (h : Faithful before stream body u) (hcs : Unescaped u.lexer cs)
    (htaken : u.appendList cs = .ok v) :
    ∃ printed, v.text = before ++ String.ofList printed ∧
      closeBraces printed + v.draft.depth = openBraces printed := by
  fun_induction cut cs generalizing u stream body with
  | case1 =>
      obtain rfl : u = v := congrArg Outcome.state htaken
      exact ⟨body, h.text, by rw [← closes_normal, ← opens_normal]; exact h.depth⟩
  | case2 rest hnone =>
      have hunclosed := h.atRest.reading_unclosed (endMark_notMem_of_dropWhile hnone)
      rw [StreamPiece.stream, htaken] at hunclosed
      have hreading := congrArg Outcome.state hunclosed
      have htext : v.text = u.text := congrArg Reading.text hreading
      have hdepth : v.draft.depth = u.draft.depth := congrArg Reading.depth hreading
      refine ⟨body, by rw [htext, h.text], ?_⟩
      rw [hdepth, ← closes_normal, ← opens_normal]
      exact h.depth
  | case3 rest d after hrest ih =>
      have hpayload := endMark_notMem_takeWhile rest
      have hsplit : Reference.startMark :: rest =
          (StreamPiece.reference (rest.takeWhile (· ≠ Reference.endMark))).stream ++ after := by
        rw [StreamPiece.stream, List.cons_append, List.append_assoc, List.singleton_append,
          ← eq_append_of_dropWhile hrest]
      have hescaped := hcs [] rest rfl
      rw [hsplit] at hcs htaken
      obtain ⟨q, hparse, hafter⟩ := h.atRest.reference_taken hpayload htaken
      obtain ⟨name, hname⟩ := h.append_reference (TypeName.valid_of_parse hparse) hescaped
      refine ih hname ?_ hafter
      have hlexer : (u.appendType q).state.lexer = u.lexer.after
          (StreamPiece.reference (rest.takeWhile (· ≠ Reference.endMark))).stream := by
        rw [h.atRest.appendType_eq (TypeName.valid_of_parse hparse), h.atRest.lexer_eq,
          StreamPiece.stream, Lexer.after_reference hpayload]
        rfl
      rw [hlexer]
      exact hcs.of_append
  | case4 rest hstart ih =>
      rw [appendList_cons, Outcome.andThen_eq_ok_iff] at htaken
      have hstray := congrArg Outcome.error? h.atRest.reading_strayEnd
      rw [Outcome.error?_map, htaken.1] at hstray
      exact absurd hstray (by simp)
  | case5 c rest hstart hend ih =>
      rw [appendList_cons, Outcome.andThen_eq_ok_iff] at htaken
      have hfirst : Unescaped u.lexer ([c] ++ rest) := hcs
      exact ih (h.append_plain hstart hend htaken.1) hfirst.of_append htaken.2

end CompilationUnit

/-! ## Bindings -/

/-- A step of a run reserves nothing. -/
theorem Scope.Step.binding?_of_reserved {s t : Scope} {simple : String} {b : Binding}
    (h : s.Step t) (hb : t.binding? simple = some b) (hreserved : b.reserved = true) :
    s.binding? simple = some b := by
  cases h with
  | still => exact hb
  | claimed q hfree =>
      rw [binding?_claim] at hb
      split at hb
      · rw [← Option.some.inj hb] at hreserved
        exact absurd hreserved (by simp)
      · exact hb

namespace CompilationUnit

variable {visible : Visibility} {target : TypeName} {companions : List TypeName}
  {features : Features} {u v : CompilationUnit} {history : List BlockStep} {q : TypeName}
  {simple : String} {b : Binding}

theorem Reaches.binding?_of_reserved (h : Reaches u history v)
    (hb : v.scope.binding? simple = some b) (hreserved : b.reserved = true) :
    u.scope.binding? simple = some b :=
  h.inv (P := fun v => ∀ {b}, v.scope.binding? simple = some b → b.reserved = true →
      u.scope.binding? simple = some b)
    (fun v c ih _ hb hreserved =>
      ih ((v.step_append c).binding?_of_reserved hb hreserved) hreserved)
    (fun v q ih _ hb hreserved =>
      ih ((v.step_spell q).binding?_of_reserved hb hreserved) hreserved)
    (fun hb _ => hb) hb hreserved

/-- The target and the companions own their simple names for good. -/
theorem Reaches.binding?_of_mem (hstart : start visible target companions features = .ok u)
    (h : Reaches u history v) (hq : q ∈ target :: companions) :
    v.scope.binding? q.simpleName = some ⟨q, true⟩ := by
  obtain ⟨-, scope, hscope, rfl⟩ := start_eq_ok_iff.1 hstart
  exact h.grows _ _ ((binding?_of_startScope_iff hscope).2 (.inl ⟨rfl, hq, rfl⟩))

/-- Only the target and the companions are reserved. -/
theorem Reaches.owner_of_reserved (hstart : start visible target companions features = .ok u)
    (h : Reaches u history v) (hb : v.scope.binding? simple = some b)
    (hreserved : b.reserved = true) : b.owner ∈ target :: companions := by
  have hb' := h.binding?_of_reserved hb hreserved
  obtain ⟨-, scope, hscope, rfl⟩ := start_eq_ok_iff.1 hstart
  rcases (binding?_of_startScope_iff hscope).1 hb' with ⟨-, howner, -⟩ | ⟨hbound, -⟩
  · exact howner
  · rw [hreserved] at hbound
    exact absurd hbound (by decide)

end CompilationUnit

/-! ## Reports as they are read -/

/-- The binding of a simple name, as a report tells of it. -/
structure ReportedBinding where
  simpleName : String
  owner : String
  reserved : Bool
  deriving DecidableEq, Repr

/-- What a program reads off a report. -/
structure Report where
  target : String
  source : String
  openBlocks : Nat
  bindings : List ReportedBinding
  imports : List String
  deriving DecidableEq, Repr

open Text

/-- The JSON object tells of the binding, and of nothing else. -/
structure ReportedBinding.ShownBy (b : ReportedBinding) (j : Json) : Prop where
  keys : j.keys = ["owner", "reserved", "simple_name"]
  simpleName : j.field? "simple_name" = some (.str b.simpleName)
  owner : j.field? "owner" = some (.str b.owner)
  reserved : j.field? "reserved" = some (.bool b.reserved)

/-- The JSON object is the report, and has nothing else in it. -/
structure Report.ShownBy (r : Report) (j : Json) : Prop where
  keys : j.keys = ["bindings", "imports", "open_blocks", "source", "target"]
  target : j.field? "target" = some (.str r.target)
  source : j.field? "source" = some (.str r.source)
  openBlocks : j.field? "open_blocks" = some (.num r.openBlocks)
  bindings : ∃ items, j.field? "bindings" = some (.arr items) ∧
    List.Forall₂ ReportedBinding.ShownBy r.bindings items
  imports : j.field? "imports" = some (.arr (r.imports.map .str))

/-- What the report says is right for a unit with this target and these companions, into which the
stream was rendered. -/
structure Report.Accounts (r : Report) (target : TypeName) (companions : List TypeName)
    (stream : List Char) : Prop where
  subject : r.target = target.dotted
  /-- The blocks left open are the `{` in code less the `}` in code. -/
  blocks : Event.closes (Lexer.events {} stream) + r.openBlocks =
    Event.opens (Lexer.events {} stream)
  /-- The simple names go up, so none of them comes twice. -/
  ascending : (r.bindings.map ReportedBinding.simpleName).Pairwise (· < ·)
  reserved : ∀ q ∈ target :: companions, ⟨q.simpleName, q.dotted, true⟩ ∈ r.bindings
  /-- A simple name is the last segment of its owner. -/
  named : ∀ b ∈ r.bindings, (segments b.owner.toList).getLast? = some b.simpleName
  importsAscending : r.imports.Pairwise (· < ·)
  /-- An import owns a simple name that was not reserved. -/
  bound : ∀ name ∈ r.imports, ∃ simple, ⟨simple, name, false⟩ ∈ r.bindings

/-- The keys of an object are those of its fields, put in order. -/
theorem Text.Json.keys_object_eq {fields : List (String × Json)} {keys : List String}
    (hkeys : keys.Pairwise (· < ·)) (h : (fields.map Prod.fst).Perm keys) :
    (Json.object fields).keys = keys :=
  (Json.pairwise_keys_object fields).eq_of_mem_iff hkeys fun _ =>
    Json.mem_keys_object.trans h.mem_iff

/-- What the report on the binding says. -/
def Binding.reported (b : Binding) (simple : String) : ReportedBinding :=
  ⟨simple, b.owner.dotted, b.reserved⟩

theorem Binding.shownBy_report (b : Binding) (simple : String) :
    (b.reported simple).ShownBy (b.report simple) := by
  have hkeys : ["simple_name", "owner", "reserved"].Nodup := by decide
  constructor
  · exact Json.keys_object_eq (by decide)
      (show ["simple_name", "owner", "reserved"].Perm _ by decide)
  · exact Json.field?_object hkeys (by simp [Binding.reported])
  · exact Json.field?_object hkeys (by simp [Binding.reported])
  · exact Json.field?_object hkeys (by simp [Binding.reported])

namespace CompilationUnit

/-- What the report on the unit says. -/
def reported (u : CompilationUnit) (withImports : Bool) : Report where
  target := u.target.dotted
  source := u.source withImports
  openBlocks := u.draft.depth
  bindings := u.scope.toList.map fun entry => entry.2.reported entry.1
  imports := u.imports.map TypeName.dotted

theorem shownBy_report (u : CompilationUnit) (withImports : Bool) :
    (u.reported withImports).ShownBy (u.report withImports) := by
  have hkeys : ["target", "source", "open_blocks", "bindings", "imports"].Nodup := by decide
  constructor
  · exact Json.keys_object_eq (by decide)
      (show ["target", "source", "open_blocks", "bindings", "imports"].Perm _ by decide)
  · exact Json.field?_object hkeys (by simp [reported])
  · exact Json.field?_object hkeys (by simp [reported])
  · exact Json.field?_object hkeys (by simp [reported])
  · refine ⟨u.scope.toList.map fun entry => entry.2.report entry.1,
      Json.field?_object hkeys (by simp), ?_⟩
    refine List.forall₂_map_left_iff.2 (List.forall₂_map_right_iff.2 ?_)
    exact List.forall₂_same.2 fun entry _ => entry.2.shownBy_report entry.1
  · exact Json.field?_object hkeys (by simp [reported])

end CompilationUnit

namespace TypeName

theorem Valid.getLast?_segments_dotted {q : TypeName} (h : q.Valid) :
    (Text.segments q.dotted.toList).getLast? = some q.simpleName := by
  rw [dotted, Text.segments_dotted_of_isIdentifier h.2, segments_eq_append h.1,
    List.getLast?_concat]

end TypeName

namespace UnitSpec

open BodyTemplate CompilationUnit

variable {spec : UnitSpec} {body : String} {u : CompilationUnit}

theorem render_eq_ok_iff :
    spec.render body = .ok u ↔ ∃ fresh, spec.start = .ok fresh ∧ fresh.render body = .ok u := by
  unfold render
  cases spec.start with
  | error e => simp
  | ok fresh =>
      simp only [Except.ok.injEq, exists_eq_left']
      cases fresh.render body with
      | mk state error? => cases error? <;> simp [Outcome.ok]

/-- A command line knows valid types of `java.lang` at most. -/
theorem valid_of_mem_visibility {q : TypeName} (h : q ∈ spec.visibility spec.target) : q.Valid := by
  unfold visibility at h
  split at h
  · have htypes : ∀ q ∈ JavaLang.types, q.Valid := by decide +kernel
    exact htypes q h
  · exact absurd h List.not_mem_nil

/-- Every name that stands for a type in a unit that a body was rendered into stands for a valid
one. -/
theorem valid_of_binding? {fresh : CompilationUnit} {simple : String} {b : Binding}
    (hnames : ∀ q ∈ spec.target :: spec.companions, q.Valid) (hstart : spec.start = .ok fresh)
    (hrender : fresh.render body = .ok u) (hb : u.scope.binding? simple = some b) :
    b.owner.Valid := by
  have hstate : fresh.editAll [.render body] = u := congrArg Outcome.state hrender
  cases hreserved : b.reserved with
  | true =>
      obtain ⟨history, hreach⟩ := (Reaches.refl (u := fresh)).editAll [.render body]
      rw [hstate] at hreach
      exact hnames _ (hreach.owner_of_reserved hstart hb hreserved)
  | false =>
      have hbinds : (fresh.editAll [.render body]).scope.BindsOnly TypeName.Valid :=
        bindsOnly_editAll (bindsOnly_of_start hstart fun q hq => valid_of_mem_visibility hq)
          (fun q hq => hq) fun q hq => absurd hq (by simp)
      rw [hstate] at hbinds
      exact hbinds simple b hb hreserved

/-- The report on a unit that a body was rendered into is right. -/
theorem accounts_of_takes {fresh : CompilationUnit} {tokens : List Token}
    (hnames : ∀ q ∈ spec.target :: spec.companions, q.Valid) (hstart : spec.start = .ok fresh)
    (hrender : fresh.render body = .ok u) (htakes : Takes fresh tokens u) (withImports : Bool) :
    (u.reported withImports).Accounts spec.target spec.companions
      (tokens.flatMap Token.stream) := by
  obtain ⟨history, hreach⟩ := (Reaches.refl (u := fresh)).edit (.render body)
  rw [show (fresh.edit (.render body)).state = u from congrArg Outcome.state hrender] at hreach
  have hcoherent : u.scope.Coherent := hreach.coherent (coherent_of_start hstart)
  have hvalid {simple : String} {b : Binding} (hb : u.scope.binding? simple = some b) :
      b.owner.Valid := valid_of_binding? hnames hstart hrender hb
  have himported {q : TypeName} (hq : q ∈ u.imports) :
      u.scope.binding? q.simpleName = some ⟨q, false⟩ := ((mem_imports_iff hcoherent).1 hq).1
  have htold {simple : String} {b : Binding} (hb : u.scope.binding? simple = some b) :
      b.reported simple ∈ (u.reported withImports).bindings :=
    List.mem_map.2 ⟨(simple, b), Scope.mem_toList_iff.2 hb, rfl⟩
  constructor
  · exact congrArg TypeName.dotted (hreach.target_eq.trans (target_of_start hstart))
  · have hlexer : fresh.lexer = {} := by
      obtain ⟨-, scope, -, rfl⟩ := start_eq_ok_iff.1 hstart
      rfl
    have hdepth : fresh.draft.depth = 0 := congrArg Reading.depth (reading_of_start hstart)
    have hcount := depth_of_appendList (atRest_of_start hstart).noFailure htakes
    rw [hlexer, hdepth] at hcount
    exact hcount
  · exact List.pairwise_map.2 (List.pairwise_map.2 u.scope.pairwise_toList)
  · intro q hq
    exact htold (hreach.binding?_of_mem hstart hq)
  · intro told hmem
    obtain ⟨⟨simple, b⟩, hentry, rfl⟩ := List.mem_map.1 hmem
    have hb := Scope.mem_toList_iff.1 hentry
    have hname : b.owner.simpleName = simple := hcoherent simple b hb
    exact (hvalid hb).getLast?_segments_dotted.trans (congrArg some hname)
  · exact List.pairwise_map.2
      (pairwise_dotted_imports hcoherent fun q hq => hvalid (himported hq))
  · intro name hname
    obtain ⟨q, hq, rfl⟩ := List.mem_map.1 hname
    exact ⟨q.simpleName, htold (himported hq)⟩

/-- **The report and the plain output agree.**  For one body and one choice of imports `emit` fails
with a report exactly if it fails without, and with the same error.  If it does not, what it prints
is one JSON object, whatever is used to print it.  The source in that object is the plain output.
The open blocks are the `{` in code of what was rendered less the `}`.  The bindings go up in their
simple names, the target and every companion is reserved among them, and each name is the last
segment of its owner.  The imports go up as well, and each owns a name that is not reserved.

What is counted for the open blocks is what the unit was given.  It is also what the text has after
the preamble, if no reference comes right behind a backslash in a literal. -/
theorem emit_reports (hnames : ∀ q ∈ spec.target :: spec.companions, q.Valid)
    (body : String) (withImports : Bool) (print : Json → String) :
    (∀ e, spec.emitWith print body withImports true = .error e ↔
        spec.emitWith print body withImports false = .error e) ∧
      ∀ out, spec.emitWith print body withImports true = .ok out →
        ∃ (object : Json) (r : Report) (tokens : List Token),
          (∀ print', spec.emitWith print' body withImports true = .ok (print' object)) ∧
          r.ShownBy object ∧
          spec.emitWith print body withImports false = .ok r.source ∧
          Reads body.toList tokens ∧
          r.Accounts spec.target spec.companions (tokens.flatMap Token.stream) ∧
          (Unescaped {} (tokens.flatMap Token.stream) →
            ∃ printed, spec.emitWith print body false false =
                .ok (preamble spec.target ++ String.ofList printed) ∧
              closeBraces printed + r.openBlocks = openBraces printed) := by
  cases hrender : spec.render body with
  | error e =>
      simp only [emitWith, hrender, Except.map]
      exact ⟨fun _ => trivial, fun out hout => absurd hout (by simp)⟩
  | ok u =>
      simp only [emitWith, hrender, Except.map]
      refine ⟨fun e => by simp, fun _ _ => ?_⟩
      obtain ⟨fresh, hstart, hu⟩ := render_eq_ok_iff.1 hrender
      obtain ⟨tokens, hreads, htakes⟩ := exists_reads hu
      refine ⟨u.report withImports, u.reported withImports, tokens, fun _ => rfl,
        u.shownBy_report withImports, rfl, hreads,
        accounts_of_takes hnames hstart hu htakes withImports, fun hplain => ?_⟩
      have hfaithful := faithful_of_start hstart
      have hunescaped : Unescaped fresh.lexer (tokens.flatMap Token.stream) := by
        rw [← hfaithful.lexer]
        exact hplain
      obtain ⟨printed, htext, hcount⟩ := hfaithful.exists_printed hunescaped htakes
      exact ⟨printed, congrArg Except.ok htext, hcount⟩

/-- Of two blocks one is closed, and braces in a string and in a reference do not count.  The report
has the block that is left open, and its source is what is printed without it. -/
theorem emit_reports_helper :
    let spec : UnitSpec :=
      { target := ⟨["com", "example"], ["Widget"]⟩
        companions := [⟨["com", "example"], ["Widget", "Helper"]⟩] }
    let body := "class Widget \x7b $\x7bjava.util.List\x7d a = \"\x7b\"; \x7b \x7d"
    (∀ q ∈ spec.target :: spec.companions, q.Valid) ∧
      ∃ object r, spec.emit body true true = .ok (Json.pretty object) ∧
        Report.ShownBy r object ∧ spec.emit body true false = .ok r.source ∧
        ⟨"Helper", "com.example.Widget.Helper", true⟩ ∈ r.bindings ∧ r.openBlocks = 1 := by
  intro spec body
  have hnames : ∀ q ∈ spec.target :: spec.companions, q.Valid := by decide +kernel
  let blocks (j : Json) : String := (j.field? "open_blocks").elim "" Json.pretty
  have hone : spec.emitWith blocks body true true = .ok (Json.num 1).pretty := by decide +kernel
  obtain ⟨-, hreport⟩ := emit_reports hnames body true blocks
  obtain ⟨object, r, tokens, hprints, hshown, hplain, -, haccounts, -⟩ := hreport _ hone
  have htext : (Json.num r.openBlocks).pretty = (Json.num 1).pretty := by
    rw [← Except.ok.inj ((hprints blocks).symm.trans hone)]
    simp only [blocks, hshown.openBlocks, Option.elim_some]
  exact ⟨hnames, object, r, hprints _, hshown, hplain,
    haccounts.reserved ⟨["com", "example"], ["Widget", "Helper"]⟩ (by decide),
    Json.num.inj (Json.pretty_injective htext)⟩

end UnitSpec
end JavaUnit
