import JavaUnit.Text.Json
import Mathlib.Data.List.Basic

/-!
# JSON values and their texts

A value can be told from its text (`Json.pretty_injective`): whoever has the text of a report has
the report.

A value that stands in another one has something after it, and it has to be seen where the value
ends.  Strings, lists and objects say so themselves, and so do truth values.  A number does not, but
what comes after it is a comma or the end of a line, and is no digit (`Ends`).  So if two values
with something behind each are the same text, the values are the same, and so is what is behind them
(`Json.print_cancel`).

What is said of a value that way is said of the lines between brackets as well
(`Json.bracketed_cancel`), and that is all that the induction on the values needs.
-/

namespace JavaUnit
namespace Text

/-- The text goes on with no digit. -/
def Ends (rest : List Char) : Prop :=
  ∀ c ∈ rest.head?, c.isDigit = false

theorem ends_nil : Ends [] := fun c hc => absurd hc (by simp)

theorem ends_cons {c : Char} (h : c.isDigit = false) (rest : List Char) : Ends (c :: rest) := by
  intro d hd
  obtain rfl := Option.some.inj hd
  exact h

namespace Json

/-! ## Strings -/

theorem eq_of_mem_shortNames {c d name : Char} (hc : (c, name) ∈ shortNames)
    (hd : (d, name) ∈ shortNames) : c = d := by
  have hall : ∀ p ∈ shortNames, ∀ q ∈ shortNames, p.2 = q.2 → p.1 = q.1 := by decide
  exact hall _ hc _ hd rfl

theorem ne_of_mem_shortNames {c name : Char} (hc : (c, name) ∈ shortNames) : name ≠ 'u' := by
  have hall : ∀ p ∈ shortNames, p.2 ≠ 'u' := by decide
  exact hall _ hc

/-- A character is escaped by its name or by its number, or stands for itself. -/
theorem escape_cases (c : Char) :
    (∃ name, (c, name) ∈ shortNames ∧ escape c = ['\\', name]) ∨
      (c.toNat < 32 ∧ escape c =
        ['\\', 'u', '0', '0', hexDigit (c.toNat / 16), hexDigit (c.toNat % 16)]) ∨
      (escape c = [c] ∧ c ≠ '"' ∧ c ≠ '\\') := by
  unfold escape
  cases hname : shortNames.lookup c with
  | some name =>
      obtain ⟨before, after, hsplit, -⟩ := List.lookup_eq_some_iff.1 hname
      exact .inl ⟨name, hsplit ▸ List.mem_append_right _ List.mem_cons_self, rfl⟩
  | none =>
      have hne : ∀ p ∈ shortNames, c ≠ p.1 := fun p hp =>
        bne_iff_ne.1 (List.lookup_eq_none_iff.1 hname p hp)
      by_cases hcontrol : c.toNat < 32
      · exact .inr (.inl ⟨hcontrol, if_pos hcontrol⟩)
      · exact .inr (.inr ⟨if_neg hcontrol, hne ('"', '"') (by decide),
          hne ('\\', '\\') (by decide)⟩)

theorem hexDigit_injective {m n : Nat} (hm : m < 16) (hn : n < 16)
    (h : hexDigit m = hexDigit n) : m = n := by
  have hall : ∀ m < 16, ∀ n < 16, hexDigit m = hexDigit n → m = n := by decide +kernel
  exact hall m hm n hn h

/-- A character can be told from what stands for it, whatever comes after. -/
theorem escape_cancel {c d : Char} {r s : List Char} (h : escape c ++ r = escape d ++ s) :
    c = d ∧ r = s := by
  rcases escape_cases c with ⟨name, hname, hc⟩ | ⟨hsmall, hc⟩ | ⟨hc, -, hslash⟩ <;>
    rcases escape_cases d with ⟨name', hname', hd⟩ | ⟨hsmall', hd⟩ | ⟨hd, -, hslash'⟩ <;>
      rw [hc, hd] at h <;>
      simp only [List.cons_append, List.nil_append, List.cons.injEq] at h
  · obtain ⟨-, rfl, hrest⟩ := h
    exact ⟨eq_of_mem_shortNames hname hname', hrest⟩
  · exact absurd h.2.1 (ne_of_mem_shortNames hname)
  · exact absurd h.1.symm hslash'
  · exact absurd h.2.1.symm (ne_of_mem_shortNames hname')
  · obtain ⟨-, -, -, -, hhigh, hlow, hrest⟩ := h
    have hhigh' := hexDigit_injective (by omega) (by omega) hhigh
    have hlow' := hexDigit_injective (by omega) (by omega) hlow
    refine ⟨Char.toNat_inj.1 ?_, hrest⟩
    omega
  · exact absurd h.1.symm hslash'
  · exact absurd h.1 hslash
  · exact absurd h.1 hslash
  · exact h

theorem escape_ne_quote {c : Char} {r s : List Char} : escape c ++ r ≠ '"' :: s := by
  intro h
  rcases escape_cases c with ⟨name, -, hc⟩ | ⟨-, hc⟩ | ⟨hc, hquote, -⟩ <;> rw [hc] at h <;>
    simp only [List.cons_append, List.nil_append, List.cons.injEq] at h
  · exact absurd h.1 (by decide)
  · exact absurd h.1 (by decide)
  · exact hquote h.1

theorem flatMap_escape_cancel {cs ds r s : List Char}
    (h : cs.flatMap escape ++ '"' :: r = ds.flatMap escape ++ '"' :: s) : cs = ds ∧ r = s := by
  induction cs generalizing ds with
  | nil =>
      cases ds with
      | nil => exact ⟨rfl, (List.cons.inj h).2⟩
      | cons d ds =>
          rw [List.flatMap_cons, List.append_assoc] at h
          exact absurd h.symm escape_ne_quote
  | cons c cs ih =>
      cases ds with
      | nil =>
          rw [List.flatMap_cons, List.append_assoc] at h
          exact absurd h escape_ne_quote
      | cons d ds =>
          rw [List.flatMap_cons, List.flatMap_cons, List.append_assoc, List.append_assoc] at h
          obtain ⟨rfl, hrest⟩ := escape_cancel h
          obtain ⟨rfl, hr⟩ := ih hrest
          exact ⟨rfl, hr⟩

theorem quoted_cancel {x y : String} {r s : List Char}
    (h : (quoted x).toList ++ r = (quoted y).toList ++ s) : x = y ∧ r = s := by
  simp only [quoted, String.toList_ofList, List.cons_append, List.append_assoc,
    List.nil_append, List.cons.injEq, true_and] at h
  obtain ⟨hxy, hr⟩ := flatMap_escape_cancel h
  exact ⟨String.toList_inj.1 hxy, hr⟩

/-! ## Numbers -/

theorem takeWhile_repr {n : Nat} {r : List Char} (hr : Ends r) :
    (n.repr.toList ++ r).takeWhile Char.isDigit = n.repr.toList := by
  have hdigits : ∀ c ∈ n.repr.toList, c.isDigit = true := by
    rw [Nat.toList_repr]
    exact fun c hc => Nat.isDigit_of_mem_toDigits (by decide) (by decide) hc
  rw [List.takeWhile_append_of_pos hdigits]
  cases r with
  | nil => simp
  | cons c r => simp [hr c rfl]

theorem repr_cancel {m n : Nat} {r s : List Char} (hr : Ends r) (hs : Ends s)
    (h : m.repr.toList ++ r = n.repr.toList ++ s) : m = n ∧ r = s := by
  have hdigits : m.repr.toList = n.repr.toList := by
    rw [← takeWhile_repr hr, h, takeWhile_repr hs]
  rw [hdigits] at h
  refine ⟨?_, List.append_cancel_left h⟩
  rw [Nat.toList_repr, Nat.toList_repr] at hdigits
  have hvalue := congrArg (fun digits => Nat.ofDigitChars 10 digits 0) hdigits
  simpa [Nat.ofDigitChars_toDigits] using hvalue

/-! ## Brackets -/

/-- What comes after a line between brackets: the lines after it, each behind a comma, and the
closing bracket. -/
def remaining (closing : Char) (level : Nat) : List String → List Char
  | [] => '\n' :: ((margin level).toList ++ [closing])
  | line :: rest =>
      ',' :: '\n' :: ((margin (level + 1)).toList ++ (line.toList ++ remaining closing level rest))

theorem toList_intercalate (closing : Char) (level : Nat) (line : String) (rest : List String) :
    (",\n".intercalate ((line :: rest).map (margin (level + 1) ++ ·))).toList ++
        '\n' :: ((margin level).toList ++ [closing]) =
      (margin (level + 1)).toList ++ (line.toList ++ remaining closing level rest) := by
  induction rest generalizing line with
  | nil => simp [remaining]
  | cons next rest ih =>
      have hnext := ih next
      rw [List.map_cons] at hnext
      rw [List.map_cons, List.map_cons, String.intercalate_cons_cons, String.toList_append,
        List.append_assoc, hnext]
      simp [remaining]

theorem toList_bracketed_cons (opening closing : Char) (level : Nat) (line : String)
    (rest : List String) :
    (bracketed opening closing level (line :: rest)).toList =
      opening :: '\n' :: ((margin (level + 1)).toList ++
        (line.toList ++ remaining closing level rest)) := by
  rw [← toList_intercalate, bracketed]
  · simp only [String.toList_append, Char.toString, String.toList_singleton, List.append_assoc]
    rfl
  · exact List.cons_ne_nil line rest

theorem ends_remaining (closing : Char) (level : Nat) (lines : List String) (r : List Char) :
    Ends (remaining closing level lines ++ r) := by
  cases lines with
  | nil => exact ends_cons (by decide) _
  | cons line rest => exact ends_cons (by decide) _

section Brackets

variable {α : Type} {line : α → String} {opening closing : Char} {level : Nat} {xs ys : List α}
  {r s : List Char}

theorem remaining_cancel
    (hline : ∀ x ∈ xs, ∀ y r s, Ends r → Ends s →
      (line x).toList ++ r = (line y).toList ++ s → x = y ∧ r = s)
    (h : remaining closing level (xs.map line) ++ r = remaining closing level (ys.map line) ++ s) :
    xs = ys ∧ r = s := by
  induction xs generalizing ys with
  | nil =>
      cases ys with
      | nil => exact ⟨rfl, List.append_cancel_left h⟩
      | cons y ys => exact absurd (List.cons.inj h).1 (by decide)
  | cons x xs ih =>
      cases ys with
      | nil => exact absurd (List.cons.inj h).1 (by decide)
      | cons y ys =>
          simp only [List.map_cons, remaining, List.cons_append, List.append_assoc, List.cons.injEq,
            true_and, List.append_cancel_left_eq] at h
          obtain ⟨rfl, hrest⟩ := hline x List.mem_cons_self y _ _
            (ends_remaining closing level _ _) (ends_remaining closing level _ _) h
          obtain ⟨rfl, hr⟩ := ih (fun x hx => hline x (List.mem_cons_of_mem _ hx)) hrest
          exact ⟨rfl, hr⟩

/-- If a line can be told from its text, the lines between brackets can. -/
theorem bracketed_cancel (hclosing : closing ≠ '\n')
    (hline : ∀ x ∈ xs, ∀ y r s, Ends r → Ends s →
      (line x).toList ++ r = (line y).toList ++ s → x = y ∧ r = s)
    (h : (bracketed opening closing level (xs.map line)).toList ++ r =
      (bracketed opening closing level (ys.map line)).toList ++ s) :
    xs = ys ∧ r = s := by
  have hnil : (bracketed opening closing level []).toList = [opening, closing] :=
    String.toList_ofList
  cases xs with
  | nil =>
      cases ys with
      | nil => exact ⟨rfl, List.append_cancel_left h⟩
      | cons y ys =>
          rw [List.map_nil, List.map_cons, hnil, toList_bracketed_cons] at h
          exact absurd (List.cons.inj (List.cons.inj h).2).1 hclosing
  | cons x xs =>
      cases ys with
      | nil =>
          rw [List.map_nil, List.map_cons, hnil, toList_bracketed_cons] at h
          exact absurd (List.cons.inj (List.cons.inj h).2).1.symm hclosing
      | cons y ys =>
          rw [List.map_cons, List.map_cons, toList_bracketed_cons, toList_bracketed_cons] at h
          -- behind its bracket the first line is like a line behind a comma
          exact remaining_cancel hline (congrArg (',' :: ·) (List.cons.inj h).2)

end Brackets

/-! ## Values -/

/-- The kinds of values: truth values, numbers, strings, lists and objects. -/
def kind : Json → Nat
  | bool _ => 0
  | num _ => 1
  | str _ => 2
  | arr _ => 3
  | obj _ => 4

/-- The kind of the values whose texts start with `c`. -/
def kindOf (c : Char) : Nat :=
  if c = 't' ∨ c = 'f' then 0
  else if c = '"' then 2
  else if c = '[' then 3
  else if c = '\x7b' then 4
  else 1

theorem kindOf_of_isDigit {c : Char} (h : c.isDigit = true) : kindOf c = 1 := by
  have hne (d : Char) (hd : d.isDigit = false) : c ≠ d := by
    rintro rfl
    exact absurd (h.symm.trans hd) (by decide)
  simp [kindOf, hne 't', hne 'f', hne '"', hne '[', hne '\x7b']

theorem exists_head_bracketed (opening closing : Char) (level : Nat) (lines : List String) :
    ∃ rest, (bracketed opening closing level lines).toList = opening :: rest := by
  cases lines with
  | nil => exact ⟨_, String.toList_ofList⟩
  | cons line rest => exact ⟨_, toList_bracketed_cons opening closing level line rest⟩

/-- The text of a value starts as its kind has it. -/
theorem exists_head_print (level : Nat) (j : Json) :
    ∃ c rest, (print level j).toList = c :: rest ∧ kindOf c = j.kind := by
  cases j with
  | bool b =>
      cases b with
      | true => exact ⟨'t', "rue".toList, by simp [print], rfl⟩
      | false => exact ⟨'f', "alse".toList, by simp [print], rfl⟩
  | num n =>
      have hne : Nat.toDigits 10 n ≠ [] := Nat.toDigits_ne_nil
      obtain ⟨c, rest, hdigits⟩ := List.exists_cons_of_ne_nil hne
      have hc : c.isDigit = true :=
        Nat.isDigit_of_mem_toDigits (by decide) (by decide) (hdigits ▸ List.mem_cons_self)
      exact ⟨c, rest, (Nat.toList_repr).trans hdigits, kindOf_of_isDigit hc⟩
  | str s => exact ⟨'"', _, String.toList_ofList, rfl⟩
  | arr items =>
      obtain ⟨rest, hrest⟩ := exists_head_bracketed '[' ']' level (printItems (level + 1) items)
      exact ⟨'[', rest, hrest, rfl⟩
  | obj fields =>
      obtain ⟨rest, hrest⟩ :=
        exists_head_bracketed '\x7b' '\x7d' level (printFields (level + 1) fields)
      exact ⟨'\x7b', rest, hrest, rfl⟩

theorem kind_eq {level : Nat} {a b : Json} {r s : List Char}
    (h : (print level a).toList ++ r = (print level b).toList ++ s) : a.kind = b.kind := by
  obtain ⟨c, rest, ha, hc⟩ := exists_head_print level a
  obtain ⟨d, rest', hb, hd⟩ := exists_head_print level b
  rw [ha, hb] at h
  rw [← hc, ← hd, (List.cons.inj h).1]

/-- What holds of a value as soon as it holds of the values in it holds of every value. -/
theorem inside_out {P : Json → Prop} (bool : ∀ b, P (.bool b)) (num : ∀ n, P (.num n))
    (str : ∀ s, P (.str s)) (arr : ∀ items, (∀ item ∈ items, P item) → P (.arr items))
    (obj : ∀ fields, (∀ field ∈ fields, P field.2) → P (.obj fields)) : ∀ j, P j
  | .bool b => bool b
  | .num n => num n
  | .str s => str s
  | .arr items => arr items fun item _ => inside_out bool num str arr obj item
  | .obj fields => obj fields fun (key, value) hfield =>
      have _ : 1 + sizeOf key + sizeOf value < sizeOf fields := List.sizeOf_lt_of_mem hfield
      inside_out bool num str arr obj value

/-- **A value can be told from its text, whatever comes after**, unless that is another digit.  The
level and what comes after vary in the induction: behind a value in a list or an object there are
the values after it and the bracket. -/
theorem print_cancel {level : Nat} {a b : Json} {r s : List Char} (hr : Ends r) (hs : Ends s)
    (h : (print level a).toList ++ r = (print level b).toList ++ s) : a = b ∧ r = s := by
  induction a using inside_out generalizing level b r s with
  | bool p =>
      cases b with
      | bool q => cases p <;> cases q <;> simp_all [print]
      | _ => exact absurd (kind_eq h) (by simp [kind])
  | num m =>
      cases b with
      | num n =>
          exact (repr_cancel hr hs h).imp_left (congrArg num)
      | _ => exact absurd (kind_eq h) (by simp [kind])
  | str x =>
      cases b with
      | str y =>
          exact (quoted_cancel h).imp_left (congrArg str)
      | _ => exact absurd (kind_eq h) (by simp [kind])
  | arr xs ih =>
      cases b with
      | arr ys =>
          simp only [print, printItems_eq] at h
          have hitems := bracketed_cancel (by decide)
            (fun x hx y r s hr hs => ih x hx hr hs) h
          exact hitems.imp_left (congrArg arr)
      | _ => exact absurd (kind_eq h) (by simp [kind])
  | obj xs ih =>
      cases b with
      | obj ys =>
          simp only [print, printFields_eq] at h
          have hfields := bracketed_cancel (by decide) (fun x hx y r s hr hs hxy => by
            simp only [String.toList_append, List.append_assoc] at hxy
            obtain ⟨hkey, hcolon⟩ := quoted_cancel hxy
            obtain ⟨hvalue, hrest⟩ := ih x hx hr hs (List.append_cancel_left hcolon)
            exact ⟨Prod.ext hkey hvalue, hrest⟩) h
          exact hfields.imp_left (congrArg obj)
      | _ => exact absurd (kind_eq h) (by simp [kind])

/-- A value can be told from its text. -/
theorem pretty_injective {a b : Json} (h : a.pretty = b.pretty) : a = b := by
  have htext : (print 0 a).toList ++ [] = (print 0 b).toList ++ [] :=
    congrArg (fun text => text.toList ++ []) h
  exact (print_cancel ends_nil ends_nil htext).1

end Json
end Text
end JavaUnit
