import Mathlib.Data.List.Basic
import SqlClause.Proofs.Placeholder.Filling

/-!
Looking back at the clause and at what has been written.

Numbering looks back twice: at the last character of the clause, to see whether a question mark is
bare, and at the end of what it has written, to see whether a membership test is negated.  Nothing
that is put into a gap ends in a character of such a test (`Sealed`), so the first look can be taken
at what has been written too.  Numbering also stops if it runs out of values, which it cannot as
their number has been checked before.  That leaves the plain scan (`fillAll_eq_scan`).
-/

namespace SqlClause
namespace Placeholder

/-- Nothing has been written, or it ends in no character of a negated membership test. -/
def Draft.Sealed (d : Draft) : Prop := ∀ c ∈ d.written.head?, c ∉ Draft.notIn

namespace Draft

theorem sealed_bind (d : Draft) (v : Value) : (d.bind v).Sealed := by
  intro c hc
  have hne : (toString d.next).toList.reverse ≠ [] := by
    rw [Nat.toString_eq_repr, Nat.repr_eq_ofList_toDigits, String.toList_ofList]
    simp
  have hw : (d.bind v).written = (toString d.next).toList.reverse ++ '$' :: d.written := rfl
  have hlast : c ∈ (toString d.next).toList.getLast? := by
    rwa [hw, List.head?_append_of_ne_nil _ hne, List.head?_reverse] at hc
  have hd : c.isDigit := isDigit_of_mem_toString (List.mem_of_getLast? hlast)
  intro hn
  simp only [notIn, List.mem_cons, List.not_mem_nil, or_false] at hn
  rcases hn with rfl | rfl | rfl | rfl | rfl | rfl | rfl | rfl <;> exact absurd hd (by decide)

theorem sealed_bindAll (d : Draft) {values : List Value} (h : values ≠ []) :
    (d.bindAll values).Sealed := by
  induction values generalizing d with
  | nil => exact absurd rfl h
  | cons v values ih =>
    cases values with
    | nil => exact sealed_bind d v
    | cons w rest => exact ih _ (List.cons_ne_nil w rest)

theorem sealed_write_append (d : Draft) (front : List Char) {text : List Char} (hne : text ≠ [])
    (h : ∀ c ∈ text.getLast?, c ∉ notIn) : (d.write (front ++ text)).Sealed := by
  intro c hc
  have hw : (d.write (front ++ text)).written = text.reverse ++ (front.reverse ++ d.written) := by
    simp [write]
  rw [hw, List.head?_append_of_ne_nil _ (by simpa using hne), List.head?_reverse] at hc
  exact h c hc

end Draft

theorem sealed_put_filling {before after : List Char} {v : Value} {filled : List Slot}
    (h : filling before after v = .slots filled) (d : Draft) : (d.put filled).Sealed := by
  rw [filling_eq] at h
  split at h
  · split at h
    · split at h
      · cases h
      · cases h
        rw [Draft.put_chars]
        exact Draft.sealed_write_append d [] (by decide) (fun c hc => by cases hc; decide)
    · next items hne =>
      cases h
      rw [Draft.put_items]
      exact Draft.sealed_bindAll d (fun hi => hne (hi ▸ rfl))
    · cases h
      exact Draft.sealed_bind d v
  · cases h
    exact Draft.sealed_bind d v

theorem sealed_settle {before after : List Char} {v : Value} {f : Filling}
    (h : filling before after v = f) (d : Draft) : (d.settle f).Sealed := by
  cases f with
  | slots filled => exact sealed_put_filling h d
  | always =>
    intro c hc
    cases hc
    decide

/-! ## Agreement -/

/-- A look at the last character of the clause and one at the last that was written see the same. -/
def Draft.Follows (d : Draft) (last : Option Char) : Prop :=
  (last == some '(') = (d.written.head? == some '(')

theorem Draft.follows_write (d : Draft) (c : Char) : (d.write [c]).Follows (some c) := rfl

theorem Draft.Sealed.follows {d : Draft} (h : d.Sealed) : d.Follows (some mark) := by
  have hne : d.written.head? ≠ some '(' := fun hb => absurd (by decide) (h '(' hb)
  have hmark : (some mark == some '(') = false := rfl
  rw [Follows, hmark, beq_eq_false_iff_ne.mpr hne]

/-- A bracket that has been used up is no placeholder. -/
theorem countFrom_unused {before after : List Char} {v : Value} {f : Filling}
    (h : filling before after v = f) :
    countFrom false (if f.used then after.tail else after) = countFrom false after := by
  cases f with
  | slots filled => rfl
  | always =>
    obtain ⟨rest, rfl⟩ := List.head?_eq_some_iff.mp (of_filling_eq_always h).2
    rfl

theorem literalAfter_unused {before after : List Char} {v : Value} {f : Filling}
    (h : filling before after v = f) :
    literalAfter false (if f.used then after.tail else after) = literalAfter false after := by
  cases f with
  | slots filled => rfl
  | always =>
    obtain ⟨rest, rfl⟩ := List.head?_eq_some_iff.mp (of_filling_eq_always h).2
    rfl

section

variable {placeholders : Nat} {last : Option Char} {d : Draft} {values : List Value}
  {rest : List Char}

theorem fillAll_cons {inLiteral : Bool} {c : Char} (h : countFrom inLiteral [c] = 0) :
    fillAll placeholders inLiteral last d values (c :: rest)
      = fillAll placeholders (literalAfter inLiteral [c]) (some c) (d.write [c]) values rest := by
  rw [fillAll.eq_def]
  show (if c = quote then _ else if c = mark ∧ inLiteral = false then _ else _)
    = fillAll placeholders (if c = quote then !inLiteral else inLiteral) _ _ _ _
  by_cases hq : c = quote
  · rw [if_pos hq, if_pos hq]
  · have hm : ¬(c = mark ∧ inLiteral = false) := by
      intro hm
      rw [countFrom, if_neg hq, if_pos hm] at h
      cases h
    rw [if_neg hq, if_neg hm, if_neg hq]

theorem fillAll_mark {v : Value} {f : Filling} (hlast : d.Follows last)
    (h : filling d.written.reverse rest v = f) :
    fillAll placeholders false last d (v :: values) (mark :: rest)
      = fillAll placeholders false (some mark) (d.settle f) values
          (if f.used then rest.tail else rest) := by
  have hfill : d.fill v (last == some '(' && rest.head? == some ')') = (d.settle f, f.used) := by
    rw [hlast, fill_eq_filling, h]
  rw [fillAll.eq_def]
  show (if mark = quote then _ else if mark = mark ∧ false = false then _ else _) = _
  rw [if_neg (by decide), if_pos ⟨rfl, rfl⟩]
  simp only [hfill]
  cases f with
  | slots filled => rfl
  | always => cases rest <;> rfl

end

theorem fillAll_eq_scan {placeholders : Nat} {inLiteral : Bool} {last : Option Char} {d : Draft}
    {values : List Value} {text : List Char} (hcount : countFrom inLiteral text ≤ values.length)
    (hlast : d.Follows last) :
    fillAll placeholders inLiteral last d values text = .ok (scan inLiteral d values text) := by
  induction inLiteral, d, values, text using scan_induction generalizing last with
  | nil inLiteral d values => rfl
  | plain inLiteral d values c rest hc ih =>
    rw [countFrom_cons hc] at hcount
    rw [fillAll_cons hc, scan_cons hc]
    exact ih hcount (d.follows_write c)
  | unbound d rest ih => exact absurd hcount (Nat.not_succ_le_zero _)
  | bound d v values rest f hf ih =>
    have hrest : countFrom false rest ≤ values.length := Nat.le_of_succ_le_succ hcount
    have hsealed : (d.settle f).Sealed := sealed_settle hf d
    rw [fillAll_mark hlast hf, scan_mark hf]
    refine ih ?_ hsealed.follows
    rw [countFrom_unused hf]
    exact hrest

theorem number_eq_scan {sql : String} {values : List Value} (h : count sql = values.length)
    (offset : Nat) :
    number sql values offset
      = let done := scan false ⟨[], [], offset + 1⟩ values sql.toList
        .ok ⟨String.ofList done.written.reverse, done.params.reverse⟩ := by
  have hstart : (⟨[], [], offset + 1⟩ : Draft).Follows none := rfl
  rw [number, if_pos h, fillAll_eq_scan (Nat.le_of_eq h) hstart]
  rfl

theorem of_number_eq_ok {sql : String} {values : List Value} {offset : Nat} {r : Numbered}
    (h : number sql values offset = .ok r) :
    count sql = values.length ∧
      let done := scan false ⟨[], [], offset + 1⟩ values sql.toList
      r = ⟨String.ofList done.written.reverse, done.params.reverse⟩ := by
  have hcount : count sql = values.length := by
    by_contra hne
    rw [number, if_neg hne] at h
    cases h
  rw [number_eq_scan hcount] at h
  cases h
  exact ⟨hcount, rfl⟩

/-- A scan that comes to slots numbers the clause as the slots are rendered. -/
theorem number_of_scan {sql : String} {values : List Value} {offset : Nat} {slots : List Slot}
    (hc : count sql = values.length)
    (h : scan false ⟨[], [], offset + 1⟩ values sql.toList
      = (⟨[], [], offset + 1⟩ : Draft).put slots) :
    number sql values offset
      = .ok ⟨String.ofList (Slot.render (offset + 1) slots), Slot.params slots⟩ := by
  rw [number_eq_scan hc, h, Draft.put_eq_append]
  simp [Draft.append]

end Placeholder
end SqlClause
