import JavaUnit.Lexer

/-!
# What a whole text is

The lexer says of one character at a time what it is.  Run over a text it gives a list of
events, one for each character, and a last state.  Two things are read off such a list: the
braces in code, in their order, and how many of them open and close.

A text without the marks of references is read by the lexical state alone
(`Lexer.events_of_markFree`).  A whole reference has no brace in it, whatever stands between
its marks, and only settles the state (`Lexer.after_reference`, `Lexer.braces_reference`).
-/

namespace JavaUnit

/-- A text in which no mark of a reference stands. -/
def MarkFree (cs : List Char) : Prop :=
  Reference.startMark ∉ cs ∧ Reference.endMark ∉ cs

instance (cs : List Char) : Decidable (MarkFree cs) :=
  inferInstanceAs (Decidable (_ ∧ _))

theorem markFree_nil : MarkFree [] := by
  simp [MarkFree]

theorem markFree_cons {c : Char} {cs : List Char} :
    MarkFree (c :: cs) ↔
      c ≠ Reference.startMark ∧ c ≠ Reference.endMark ∧ MarkFree cs := by
  simp only [MarkFree, List.mem_cons, not_or]
  constructor
  · rintro ⟨⟨hs, hcs⟩, he, hce⟩
    exact ⟨Ne.symm hs, Ne.symm he, hcs, hce⟩
  · rintro ⟨hs, he, hcs, hce⟩
    exact ⟨⟨Ne.symm hs, hcs⟩, Ne.symm he, hce⟩

theorem markFree_append {cs ds : List Char} :
    MarkFree (cs ++ ds) ↔ MarkFree cs ∧ MarkFree ds := by
  simp only [MarkFree, List.mem_append, not_or]
  constructor
  · rintro ⟨⟨hcs, hds⟩, hce, hde⟩
    exact ⟨⟨hcs, hce⟩, hds, hde⟩
  · rintro ⟨⟨hcs, hce⟩, hds, hde⟩
    exact ⟨⟨hcs, hds⟩, hce, hde⟩

theorem MarkFree.append {cs ds : List Char} (hcs : MarkFree cs) (hds : MarkFree ds) :
    MarkFree (cs ++ ds) :=
  markFree_append.2 ⟨hcs, hds⟩

/-! ## Braces among events -/

namespace Event

/-- Whether the event is a brace in code. -/
def isBrace : Event → Bool
  | blockOpen | blockClose => true
  | _ => false

/-- The braces in code, in their order. -/
def braces (es : List Event) : List Event :=
  es.filter isBrace

/-- How many braces open a block. -/
def opens (es : List Event) : Nat :=
  es.count blockOpen

/-- How many braces close a block. -/
def closes (es : List Event) : Nat :=
  es.count blockClose

@[simp] theorem braces_nil : braces [] = [] := rfl

@[simp] theorem braces_append (es fs : List Event) :
    braces (es ++ fs) = braces es ++ braces fs := by
  simp [braces]

@[simp] theorem opens_nil : opens [] = 0 := rfl

@[simp] theorem closes_nil : closes [] = 0 := rfl

@[simp] theorem opens_append (es fs : List Event) : opens (es ++ fs) = opens es + opens fs := by
  simp [opens]

@[simp] theorem closes_append (es fs : List Event) :
    closes (es ++ fs) = closes es + closes fs := by
  simp [closes]

theorem opens_cons (e : Event) (es : List Event) : opens (e :: es) = opens [e] + opens es :=
  opens_append [e] es

theorem closes_cons (e : Event) (es : List Event) : closes (e :: es) = closes [e] + closes es :=
  closes_append [e] es

theorem opens_singleton (e : Event) : opens [e] = if e = blockOpen then 1 else 0 := by
  simp [opens, List.count_singleton]

theorem closes_singleton (e : Event) : closes [e] = if e = blockClose then 1 else 0 := by
  simp [closes, List.count_singleton]

/-- Events without a brace open and close nothing. -/
theorem opens_eq_zero_of_braces {es : List Event} (h : braces es = []) : opens es = 0 := by
  rw [opens, List.count_eq_zero]
  intro hmem
  have := List.filter_eq_nil_iff.1 h _ hmem
  simp [isBrace] at this

theorem closes_eq_zero_of_braces {es : List Event} (h : braces es = []) : closes es = 0 := by
  rw [closes, List.count_eq_zero]
  intro hmem
  have := List.filter_eq_nil_iff.1 h _ hmem
  simp [isBrace] at this

theorem braces_eq_nil_of_beginning {es fs : List Event} (hes : es <+: fs) (hfs : braces fs = []) :
    braces es = [] := by
  have hprefix : braces es <+: braces fs := hes.filter isBrace
  rw [hfs] at hprefix
  exact List.prefix_nil.1 hprefix

/-! ## Events that nest -/

/-- With `n` blocks open before them, no beginning of the events closes one too many. -/
def Affords (n : Nat) (es : List Event) : Prop :=
  ∀ p, p <+: es → closes p ≤ n + opens p

theorem affords_nil (n : Nat) : Affords n [] := by
  intro p hp
  rw [List.prefix_nil.1 hp, closes_nil]
  exact Nat.zero_le _

/-- Where `n` open blocks become `m` by the first events, it is those that the rest needs. -/
theorem Affords.append {n m : Nat} {es fs : List Event} (hes : Affords n es)
    (hm : closes es + m = opens es + n) (hfs : Affords m fs) : Affords n (es ++ fs) := by
  intro p hp
  rcases List.prefix_or_prefix_of_prefix hp (List.prefix_append es fs) with hshort | ⟨q, rfl⟩
  · exact hes p hshort
  · have hq := hfs q ((List.prefix_append_right_inj es).1 hp)
    rw [closes_append, opens_append]
    omega

theorem affords_cons {n m : Nat} {e : Event} {es : List Event}
    (hm : closes [e] + m = opens [e] + n) : Affords n (e :: es) ↔ Affords m es := by
  constructor
  · intro h p hp
    have hep := h (e :: p) (List.cons_prefix_cons.2 ⟨rfl, hp⟩)
    rw [closes_cons, opens_cons] at hep
    omega
  · intro h
    have hfirst : Affords n [e] := by
      intro p hp
      rcases List.prefix_cons_iff.1 hp with rfl | ⟨tail, rfl, htail⟩
      · exact affords_nil n [] (List.prefix_refl _)
      · rw [List.prefix_nil.1 htail]
        omega
    exact hfirst.append hm h

/-- Events without a brace need no blocks. -/
theorem affords_of_braces {es : List Event} (h : braces es = []) (n : Nat) : Affords n es := by
  intro p hp
  rw [closes_eq_zero_of_braces (braces_eq_nil_of_beginning hp h)]
  exact Nat.zero_le _

end Event

/-! ## The lexical state over a text -/

namespace LexState

/-- What the characters of a text are, if no reference is among them. -/
def events (s : LexState) : List Char → List Event
  | [] => []
  | c :: rest => (s.read c).1 :: events (s.read c).2 rest

/-- The state after a text in which no reference is. -/
def after (s : LexState) : List Char → LexState
  | [] => s
  | c :: rest => after (s.read c).2 rest

@[simp] theorem events_nil (s : LexState) : s.events [] = [] := rfl

@[simp] theorem events_cons (s : LexState) (c : Char) (rest : List Char) :
    s.events (c :: rest) = (s.read c).1 :: (s.read c).2.events rest := rfl

@[simp] theorem after_nil (s : LexState) : s.after [] = s := rfl

@[simp] theorem after_cons (s : LexState) (c : Char) (rest : List Char) :
    s.after (c :: rest) = (s.read c).2.after rest := rfl

theorem events_append (s : LexState) (cs ds : List Char) :
    s.events (cs ++ ds) = s.events cs ++ (s.after cs).events ds := by
  induction cs generalizing s with
  | nil => rfl
  | cons c cs ih => rw [List.cons_append, events_cons, events_cons, after_cons, ih]; rfl

/-- The beginnings of the events are the events of the beginnings. -/
theorem prefix_events_iff {s : LexState} {cs : List Char} {es : List Event} :
    es <+: s.events cs ↔ ∃ p, p <+: cs ∧ s.events p = es := by
  constructor
  · intro hes
    induction cs generalizing s es with
    | nil => exact ⟨[], List.prefix_refl _, (List.prefix_nil.1 hes).symm⟩
    | cons c cs ih =>
        rw [events_cons] at hes
        rcases List.prefix_cons_iff.1 hes with rfl | ⟨tail, rfl, htail⟩
        · exact ⟨[], List.nil_prefix, rfl⟩
        · obtain ⟨p, hp, rfl⟩ := ih htail
          exact ⟨c :: p, List.cons_prefix_cons.2 ⟨rfl, hp⟩, rfl⟩
  · rintro ⟨p, ⟨rest, rfl⟩, rfl⟩
    rw [events_append]
    exact List.prefix_append _ _

theorem after_append (s : LexState) (cs ds : List Char) :
    s.after (cs ++ ds) = (s.after cs).after ds := by
  induction cs generalizing s with
  | nil => rfl
  | cons c cs ih => rw [List.cons_append, after_cons, after_cons, ih]

/-- A slash that no comment follows was a character of code. -/
theorem read_slash {c : Char} (hslash : c ≠ '/') (hstar : c ≠ '*') :
    slash.read c = normal.read c := by
  simp [read]

/-- A character that is read by the lexical state is a brace or plain text. -/
theorem read_cases (s : LexState) (c : Char) :
    ((s.read c).1 = .blockOpen ∧ c = '{') ∨ ((s.read c).1 = .blockClose ∧ c = '}') ∨
      ∃ region, (s.read c).1 = .text c region := by
  have hcode : ((readCode c).1 = .blockOpen ∧ c = '{') ∨
      ((readCode c).1 = .blockClose ∧ c = '}') ∨
        ∃ region, (readCode c).1 = .text c region := by
    unfold readCode
    split <;> simp
  cases s with
  | normal => exact hcode
  | slash =>
      simp only [read]
      split
      · exact .inr (.inr ⟨_, rfl⟩)
      · exact .inr (.inr ⟨_, rfl⟩)
      · exact hcode
  | lineComment =>
      simp only [read]
      split
      · exact .inr (.inr ⟨_, rfl⟩)
      · exact .inr (.inr ⟨_, rfl⟩)
  | blockComment => exact .inr (.inr ⟨_, rfl⟩)
  | blockCommentStar => exact .inr (.inr ⟨_, rfl⟩)
  | literal quote => exact .inr (.inr ⟨_, rfl⟩)
  | escaped quote => exact .inr (.inr ⟨_, rfl⟩)

end LexState

/-! ## The lexer over a text -/

namespace Lexer

/-- What the characters of a text are. -/
def events (l : Lexer) : List Char → List Event
  | [] => []
  | c :: rest => (l.classify c).1 :: events (l.classify c).2 rest

/-- The lexer after a text. -/
def after (l : Lexer) : List Char → Lexer
  | [] => l
  | c :: rest => after (l.classify c).2 rest

@[simp] theorem events_nil (l : Lexer) : l.events [] = [] := rfl

@[simp] theorem events_cons (l : Lexer) (c : Char) (rest : List Char) :
    l.events (c :: rest) = (l.classify c).1 :: (l.classify c).2.events rest := rfl

@[simp] theorem after_nil (l : Lexer) : l.after [] = l := rfl

@[simp] theorem after_cons (l : Lexer) (c : Char) (rest : List Char) :
    l.after (c :: rest) = (l.classify c).2.after rest := rfl

/-- A character belongs to a reference, or it is what the lexical state takes it for. -/
theorem classify_cases (l : Lexer) (c : Char) :
    (∃ region, (l.classify c).1 = .referenceStart region) ∨
      (l.classify c).1 = .referenceChar c ∨ (l.classify c).1 = .referenceEnd ∨
        (l.classify c).1 = (l.state.read c).1 := by
  unfold classify
  split
  · split
    · exact .inr (.inr (.inl rfl))
    · exact .inr (.inl rfl)
  · split
    · exact .inl ⟨_, rfl⟩
    · split
      · exact .inr (.inr (.inl rfl))
      · exact .inr (.inr (.inr rfl))

theorem events_append (l : Lexer) (cs ds : List Char) :
    l.events (cs ++ ds) = l.events cs ++ (l.after cs).events ds := by
  induction cs generalizing l with
  | nil => rfl
  | cons c cs ih => rw [List.cons_append, events_cons, events_cons, after_cons, ih]; rfl

theorem after_append (l : Lexer) (cs ds : List Char) :
    l.after (cs ++ ds) = (l.after cs).after ds := by
  induction cs generalizing l with
  | nil => rfl
  | cons c cs ih => rw [List.cons_append, after_cons, after_cons, ih]

/-- Without marks the lexical state alone says what the characters are. -/
theorem events_of_markFree {cs : List Char} (h : MarkFree cs) (s : LexState) :
    events ⟨s, false⟩ cs = s.events cs := by
  induction cs generalizing s with
  | nil => rfl
  | cons c cs ih =>
      obtain ⟨hs, he, hcs⟩ := markFree_cons.1 h
      rw [events_cons, classify_plain s hs he, LexState.events_cons, ih hcs]

theorem after_of_markFree {cs : List Char} (h : MarkFree cs) (s : LexState) :
    after ⟨s, false⟩ cs = ⟨s.after cs, false⟩ := by
  induction cs generalizing s with
  | nil => rfl
  | cons c cs ih =>
      obtain ⟨hs, he, hcs⟩ := markFree_cons.1 h
      rw [after_cons, classify_plain s hs he, LexState.after_cons, ih hcs]

/-- Between the marks nothing but the end mark is heeded. -/
theorem events_payload {payload : List Char} (h : Reference.endMark ∉ payload) (s : LexState) :
    events ⟨s, true⟩ payload = payload.map Event.referenceChar := by
  induction payload with
  | nil => rfl
  | cons c payload ih =>
      have hc : c ≠ Reference.endMark := fun he => h (he ▸ List.mem_cons_self)
      rw [events_cons, classify_inReference s hc, List.map_cons,
        ih fun hmem => h (List.mem_cons_of_mem _ hmem)]

theorem after_payload {payload : List Char} (h : Reference.endMark ∉ payload) (s : LexState) :
    after ⟨s, true⟩ payload = ⟨s, true⟩ := by
  induction payload with
  | nil => rfl
  | cons c payload ih =>
      have hc : c ≠ Reference.endMark := fun he => h (he ▸ List.mem_cons_self)
      rw [after_cons, classify_inReference s hc, ih fun hmem => h (List.mem_cons_of_mem _ hmem)]

/-- A whole reference settles the state and does nothing else to it. -/
theorem after_reference {payload : List Char} (h : Reference.endMark ∉ payload) (s : LexState) :
    after ⟨s, false⟩ (Reference.startMark :: (payload ++ [Reference.endMark])) =
      ⟨s.settle, false⟩ := by
  rw [after_cons, classify_startMark, after_append, after_payload h, after_cons,
    classify_endMark, after_nil]

/-- No brace of a reference counts. -/
theorem braces_reference {payload : List Char} (h : Reference.endMark ∉ payload)
    (s : LexState) :
    Event.braces (events ⟨s, false⟩ (Reference.startMark :: (payload ++ [Reference.endMark]))) =
      [] := by
  have hpayload : Event.braces (payload.map Event.referenceChar) = [] := by
    refine List.filter_eq_nil_iff.2 fun e he => ?_
    obtain ⟨c, -, rfl⟩ := List.mem_map.1 he
    simp [Event.isBrace]
  rw [events_cons, classify_startMark, events_append, events_payload h, after_payload h,
    events_cons, classify_endMark, events_nil]
  have hcons (e : Event) (es : List Event) : e :: es = [e] ++ es := rfl
  rw [hcons, Event.braces_append, Event.braces_append, hpayload]
  rfl

end Lexer
end JavaUnit
