import JavaUnit.Proofs.Ownership

/-!
# A scope under any operations

A unit makes its reservations first, is shown what is visible, and then only refers to types and
declares them.  A scope does not depend on that order.  Here its operations come in any order and
any number, a reservation after a reference among them, and what makes simple names reliable holds
all the same.

`Scope.Keeps` is the heart of it: no operation takes a name away from its owner, and the only thing
that can happen to a binding is that its owner reserves it.  One operation keeps what there is
(`keeps_operate`), and so does a row of them (`keeps_operateAll`).

An operation on a single type touches the simple name of that type and no other
(`operate_single`).
-/

namespace JavaUnit
namespace Scope

/-- What can be done to a scope. -/
inductive Operation where
  | reserve (q : TypeName)
  | declare (q : TypeName)
  /-- Adds what is visible in the unit for `target`. -/
  | see (visible : Visibility) (target : TypeName)
  | spell (q : TypeName)

/-- The type that the operation is about, if it is about one. -/
def Operation.subject? : Operation → Option TypeName
  | reserve q | declare q | spell q => some q
  | see _ _ => none

/-- Does one operation.  Only a reservation can fail. -/
def operate (s : Scope) : Operation → Outcome Scope EmitError
  | .reserve q =>
      match s.reserve q with
      | .ok t => .ok t
      | .error e => .fail s e
  | .declare q => .ok (s.declare q).2
  | .see visible target => .ok (s.see visible target)
  | .spell q => .ok (s.spell q).2

/-- Does the operations in turn, those after a failure included. -/
def operateAll (s : Scope) (operations : List Operation) : Scope :=
  operations.foldl (fun s operation => (s.operate operation).state) s

variable {s t u : Scope} {q : TypeName} {operation : Operation} {operations : List Operation}

theorem operate_reserve_of_ok (h : s.reserve q = .ok t) : s.operate (.reserve q) = .ok t := by
  rw [operate, h]

theorem operate_reserve_of_error {e : EmitError} (h : s.reserve q = .error e) :
    s.operate (.reserve q) = .fail s e := by
  rw [operate, h]

/-! ## Names and their owners -/

theorem Coherent.declareAll (hs : s.Coherent) (names : List TypeName) :
    (s.declareAll names).Coherent := by
  induction names generalizing s with
  | nil => exact hs
  | cons q names ih => exact ih ((s.step_declare q).coherent hs)

theorem Coherent.operate (hs : s.Coherent) (operation : Operation) :
    (s.operate operation).state.Coherent := by
  cases operation with
  | reserve q =>
      rcases reserve_cases s q with ⟨-, h⟩ | ⟨-, h⟩ | ⟨b, -, -, h⟩
      · rw [operate_reserve_of_ok h]
        exact hs.claim q true
      · rw [operate_reserve_of_ok h]
        exact hs.claim q true
      · rw [operate_reserve_of_error h]
        exact hs
  | declare q => exact (s.step_declare q).coherent hs
  | see visible target => exact hs.declareAll (visible target)
  | spell q => exact (s.step_spell q).coherent hs

theorem Coherent.operateAll (hs : s.Coherent) (operations : List Operation) :
    (s.operateAll operations).Coherent := by
  induction operations generalizing s with
  | nil => exact hs
  | cons operation operations ih => exact ih (hs.operate operation)

theorem coherent_empty : empty.Coherent := by
  intro simple b hb
  rw [binding?_empty] at hb
  exact absurd hb (by simp)

/-! ## What is kept -/

/-- Every name that stands for a type in `s` stands for it in `t`.  If its binding is not the same,
it was not reserved, it is now, and a reservation for that type was made. -/
def Keeps (made : TypeName → Prop) (s t : Scope) : Prop :=
  ∀ simple b, s.binding? simple = some b →
    t.binding? simple = some b ∨
      b.reserved = false ∧ made b.owner ∧ t.binding? simple = some ⟨b.owner, true⟩

theorem Grows.keeps (h : s.Grows t) (made : TypeName → Prop) : Keeps made s t :=
  fun simple b hb => .inl (h simple b hb)

theorem Keeps.mono {made made' : TypeName → Prop} (h : Keeps made s t)
    (hmade : ∀ p, made p → made' p) : Keeps made' s t := by
  intro simple b hb
  rcases h simple b hb with hsame | ⟨hbound, hp, hreserved⟩
  · exact .inl hsame
  · exact .inr ⟨hbound, hmade _ hp, hreserved⟩

/-- Once reserved, a binding stays as it is, so there is nothing left to happen to it. -/
theorem Keeps.trans {made : TypeName → Prop} (hst : Keeps made s t) (htu : Keeps made t u) :
    Keeps made s u := by
  intro simple b hb
  rcases hst simple b hb with hsame | ⟨hbound, hp, hreserved⟩
  · exact htu simple b hsame
  · rcases htu simple _ hreserved with hsame | ⟨hfree, -, -⟩
    · exact .inr ⟨hbound, hp, hsame⟩
    · exact absurd hfree (by simp)

/-- The owner of a name may reserve it. -/
theorem keeps_claim_of_owns (h : s.Owns q) : Keeps (· = q) s (s.claim q true) := by
  obtain ⟨c, hc, howner⟩ := h
  intro simple b hb
  rw [binding?_claim]
  by_cases hname : q.simpleName = simple
  · rw [if_pos hname]
    rw [hname, hb] at hc
    obtain rfl := Option.some.inj hc
    obtain ⟨owner, reserved⟩ := b
    obtain rfl : owner = q := howner
    cases reserved with
    | true => exact .inl rfl
    | false => exact .inr ⟨rfl, rfl, rfl⟩
  · rw [if_neg hname]
    exact .inl hb

theorem grows_declareAll (s : Scope) (names : List TypeName) : s.Grows (s.declareAll names) := by
  intro simple b hb
  rw [binding?_declareAll, hb]
  rfl

/-- No operation takes a name away, and only a reservation for the owner of a name changes its
binding. -/
theorem keeps_operate (s : Scope) (operation : Operation) :
    Keeps (fun p => operation = .reserve p) s (s.operate operation).state := by
  cases operation with
  | reserve q =>
      rcases reserve_cases s q with ⟨hfree, h⟩ | ⟨howns, h⟩ | ⟨b, -, -, h⟩
      · rw [operate_reserve_of_ok h]
        exact (grows_claim hfree true).keeps _
      · rw [operate_reserve_of_ok h]
        exact (keeps_claim_of_owns howns).mono fun p hp => by rw [hp]
      · rw [operate_reserve_of_error h]
        exact (Grows.refl s).keeps _
  | declare q => exact (s.step_declare q).grows.keeps _
  | see visible target => exact (s.grows_declareAll (visible target)).keeps _
  | spell q => exact (s.step_spell q).grows.keeps _

/-- The same of operations in a row. -/
theorem keeps_operateAll (s : Scope) (operations : List Operation) :
    Keeps (.reserve · ∈ operations) s (s.operateAll operations) := by
  induction operations generalizing s with
  | nil => exact (Grows.refl s).keeps _
  | cons operation operations ih =>
      have hfirst := (s.keeps_operate operation).mono fun p hp =>
        (hp ▸ List.mem_cons_self : Operation.reserve p ∈ operation :: operations)
      have hrest := (ih (s.operate operation).state).mono fun p hp =>
        (List.mem_cons_of_mem operation hp : Operation.reserve p ∈ operation :: operations)
      exact hfirst.trans hrest

/-! ## One operation -/

/-- An operation fails if it is a reservation of a name that stands for another type, and then it
tells that type. -/
theorem error?_operate_iff {e : EmitError} :
    (s.operate operation).error? = some e ↔
      ∃ q b, operation = .reserve q ∧ s.binding? q.simpleName = some b ∧ b.owner ≠ q ∧
        e = .reservedConflict b.owner q := by
  constructor
  · intro h
    cases operation with
    | reserve q =>
        rcases reserve_cases s q with ⟨-, hok⟩ | ⟨-, hok⟩ | ⟨b, hb, hne, herror⟩
        · rw [operate_reserve_of_ok hok] at h
          exact absurd h (by simp)
        · rw [operate_reserve_of_ok hok] at h
          exact absurd h (by simp)
        · rw [operate_reserve_of_error herror] at h
          exact ⟨q, b, rfl, hb, hne, (Option.some.inj h).symm⟩
    | declare q => exact absurd h (by simp [operate])
    | see visible target => exact absurd h (by simp [operate])
    | spell q => exact absurd h (by simp [operate])
  · rintro ⟨q, b, rfl, hb, hne, rfl⟩
    rcases reserve_cases s q with ⟨hfree, -⟩ | ⟨⟨c, hc, howner⟩, -⟩ | ⟨c, hc, -, herror⟩
    · rw [hb] at hfree
      exact absurd hfree (by simp)
    · rw [hb] at hc
      exact absurd (Option.some.inj hc ▸ howner) hne
    · rw [hb] at hc
      rw [operate_reserve_of_error herror, ← Option.some.inj hc]
      rfl

/-- What fails leaves the scope as it was. -/
theorem state_operate_of_error {e : EmitError} (h : (s.operate operation).error? = some e) :
    (s.operate operation).state = s := by
  obtain ⟨q, b, rfl, -⟩ := error?_operate_iff.1 h
  cases hreserve : s.reserve q with
  | ok t =>
      rw [operate_reserve_of_ok hreserve] at h
      exact absurd h (by simp)
  | error e' => rw [operate_reserve_of_error hreserve, Outcome.state_fail]

/-- An operation about one type makes a claim for that type, or finds its simple name claimed and
does nothing. -/
theorem operate_single (h : operation.subject? = some q) :
    (∃ reserved, (s.operate operation).state = s.claim q reserved) ∨
      (s.isClaimed q.simpleName = true ∧ (s.operate operation).state = s) := by
  have hclaimed {b : Binding} (hb : s.binding? q.simpleName = some b) :
      s.isClaimed q.simpleName = true := by
    rw [isClaimed, hb]
    rfl
  have hdeclare : (∃ reserved, (s.declare q).2 = s.claim q reserved) ∨
      (s.isClaimed q.simpleName = true ∧ (s.declare q).2 = s) := by
    rcases declare_cases s q with ⟨-, h⟩ | ⟨⟨b, hb, -⟩, h⟩ | ⟨b, hb, -, h⟩
    · exact .inl ⟨false, by rw [h]⟩
    · exact .inr ⟨hclaimed hb, by rw [h]⟩
    · exact .inr ⟨hclaimed hb, by rw [h]⟩
  cases operation with
  | reserve p =>
      obtain rfl : p = q := Option.some.inj h
      rcases reserve_cases s p with ⟨-, h⟩ | ⟨-, h⟩ | ⟨b, hb, -, h⟩
      · exact .inl ⟨true, by rw [operate_reserve_of_ok h, Outcome.state_ok]⟩
      · exact .inl ⟨true, by rw [operate_reserve_of_ok h, Outcome.state_ok]⟩
      · exact .inr ⟨hclaimed hb, by rw [operate_reserve_of_error h, Outcome.state_fail]⟩
  | declare p =>
      obtain rfl : p = q := Option.some.inj h
      exact hdeclare
  | see visible target => exact absurd h (by simp [Operation.subject?])
  | spell p =>
      obtain rfl : p = q := Option.some.inj h
      show (∃ reserved, (s.spell p).2 = _) ∨ _ ∧ (s.spell p).2 = s
      rw [spell_snd]
      exact hdeclare

theorem size_operate_single (h : operation.subject? = some q) :
    (s.operate operation).state.size =
      if s.isClaimed q.simpleName then s.size else s.size + 1 := by
  rcases operate_single h with ⟨reserved, hclaim⟩ | ⟨hclaimed, hsame⟩
  · rw [hclaim, size_claim]
  · rw [hsame, if_pos hclaimed]

theorem binding?_operate_single (h : operation.subject? = some q) {simple : String}
    (hne : simple ≠ q.simpleName) :
    (s.operate operation).state.binding? simple = s.binding? simple := by
  rcases operate_single h with ⟨reserved, hclaim⟩ | ⟨-, hsame⟩
  · rw [hclaim, binding?_claim, if_neg hne.symm]
  · rw [hsame]

theorem standing_eq_owned_iff : s.standing q = .owned ↔ s.Owns q := by
  unfold standing Owns
  cases s.binding? q.simpleName with
  | none => simp
  | some b => simp

/-- A declaration says whether the simple name stands for the type afterwards. -/
theorem declare_fst_iff : (s.declare q).1 = true ↔ (s.declare q).2.standing q = .owned := by
  rw [standing_eq_owned_iff]
  rcases declare_cases s q with ⟨-, h⟩ | ⟨howns, h⟩ | ⟨b, hb, hne, h⟩
  · rw [h]
    exact ⟨fun _ => owns_claim s q false, fun _ => rfl⟩
  · rw [h]
    exact ⟨fun _ => howns, fun _ => rfl⟩
  · rw [h]
    refine ⟨fun hfalse => absurd hfalse Bool.false_ne_true, ?_⟩
    rintro ⟨c, hc, howner⟩
    rw [hb] at hc
    exact absurd (Option.some.inj hc ▸ howner) hne

/-! ## Any operations -/

/-- **One owner to a name, for good.**  Whatever was done to a scope since it was empty: every name
stands for a type that has it.  It stands for the same type after whatever else is done, and its
binding stays the same too, unless it was not reserved and a reservation for its owner makes it so.
An operation fails exactly if it reserves a name for another than its owner; it reports the owner
and leaves the scope as it was.  A declaration answers whether the name is the type's afterwards.
An operation about one type leaves the other names alone, and adds a binding exactly if the name of
the type was free.  The listing has all bindings and goes up in the names. -/
theorem operateAll_owners (h : empty.operateAll operations = s) :
    (∀ simple b, s.binding? simple = some b → b.owner.simpleName = simple) ∧
      (∀ later simple b, s.binding? simple = some b →
        (s.operateAll later).binding? simple = some b ∨
          b.reserved = false ∧ Operation.reserve b.owner ∈ later ∧
            (s.operateAll later).binding? simple = some ⟨b.owner, true⟩) ∧
      (∀ operation e, (s.operate operation).error? = some e ↔
        ∃ q b, operation = .reserve q ∧ s.binding? q.simpleName = some b ∧ b.owner ≠ q ∧
          e = .reservedConflict b.owner q) ∧
      (∀ operation e, (s.operate operation).error? = some e →
        (s.operate operation).state = s) ∧
      (∀ q, (s.declare q).1 = true ↔ (s.declare q).2.standing q = .owned) ∧
      (∀ operation q, operation.subject? = some q →
        (∀ simple, simple ≠ q.simpleName →
          (s.operate operation).state.binding? simple = s.binding? simple) ∧
        (s.operate operation).state.size =
          if s.isClaimed q.simpleName then s.size else s.size + 1) ∧
      s.toList.Pairwise (fun a b => a.1 < b.1) ∧
      ∀ simple b, (simple, b) ∈ s.toList ↔ s.binding? simple = some b := by
  have hcoherent : s.Coherent := h ▸ coherent_empty.operateAll operations
  refine ⟨hcoherent, fun later => s.keeps_operateAll later, fun _ _ => error?_operate_iff,
    fun _ _ => state_operate_of_error, fun _ => declare_fst_iff, ?_, s.pairwise_toList,
    fun _ _ => mem_toList_iff⟩
  intro operation q hq
  exact ⟨fun simple hne => binding?_operate_single hq hne, size_operate_single hq⟩

/-- Once `List` stands for one type another cannot reserve it, while that type can, and then has it
reserved.  A map adds a binding of its own. -/
theorem operateAll_owners_list :
    ∃ s, empty.operateAll [.declare ⟨["java", "util"], ["List"]⟩] = s ∧
      (s.operate (.reserve ⟨["java", "awt"], ["List"]⟩)).error? =
        some (.reservedConflict ⟨["java", "util"], ["List"]⟩ ⟨["java", "awt"], ["List"]⟩) ∧
      (s.operate (.reserve ⟨["java", "awt"], ["List"]⟩)).state = s ∧
      (s.operateAll [.reserve ⟨["java", "awt"], ["List"]⟩,
          .reserve ⟨["java", "util"], ["List"]⟩]).binding? "List" =
        some ⟨⟨["java", "util"], ["List"]⟩, true⟩ ∧
      (s.operate (.spell ⟨["java", "util"], ["Map"]⟩)).state.size = s.size + 1 := by
  let s := empty.operateAll [.declare ⟨["java", "util"], ["List"]⟩]
  have hdone : empty.operateAll [.declare ⟨["java", "util"], ["List"]⟩] = s := rfl
  obtain ⟨-, hkept, hfails, hstays, -, hsingle, -, -⟩ := operateAll_owners hdone
  have hlist : s.binding? "List" = some ⟨⟨["java", "util"], ["List"]⟩, false⟩ := by
    decide +kernel
  have herror : (s.operate (.reserve ⟨["java", "awt"], ["List"]⟩)).error? =
      some (.reservedConflict ⟨["java", "util"], ["List"]⟩ ⟨["java", "awt"], ["List"]⟩) :=
    (hfails _ _).2 ⟨_, _, rfl, hlist, by decide, rfl⟩
  refine ⟨s, hdone, herror, hstays _ _ herror, ?_, ?_⟩
  · rcases hkept [.reserve ⟨["java", "awt"], ["List"]⟩, .reserve ⟨["java", "util"], ["List"]⟩]
      "List" _ hlist with hsame | ⟨-, -, hreserved⟩
    · exact absurd hsame (by decide +kernel)
    · exact hreserved
  · rw [(hsingle (.spell ⟨["java", "util"], ["Map"]⟩) _ rfl).2]
    have hfree : s.isClaimed "Map" = false := by decide +kernel
    exact if_neg (by rw [show TypeName.simpleName _ = "Map" from rfl, hfree]; decide)

end Scope
end JavaUnit
