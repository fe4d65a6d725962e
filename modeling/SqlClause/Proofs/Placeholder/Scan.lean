import Mathlib.Algebra.Group.Nat.Even
import SqlClause.Placeholder.Numbering

/-!
The scan for placeholders, one character and one stretch of text at a time.

A scan holds one bit about the text behind it, whether it is inside a literal, and that bit is the
parity of the quotes it has read (`literalAfter_eq_false_iff`).  Text without placeholders is
written as it stands, whatever values are left, and only the bit changes (`scan_plain`).
-/

namespace SqlClause
namespace Placeholder

/-! ## Inside and outside -/

theorem literalAfter_eq_true_iff (inLiteral : Bool) (text : List Char) :
    literalAfter inLiteral text = true ↔ (text.count quote + inLiteral.toNat) % 2 = 1 := by
  induction text generalizing inLiteral with
  | nil => cases inLiteral <;> simp [literalAfter]
  | cons c text ih =>
    rw [literalAfter, ih]
    by_cases hq : c = quote
    · rw [if_pos hq, hq, List.count_cons_self]
      have hb : (!inLiteral).toNat + inLiteral.toNat = 1 := by cases inLiteral <;> rfl
      omega
    · rw [if_neg hq, List.count_cons_of_ne hq]

/-- A text ends outside literals if it has an even number of quotes. -/
theorem literalAfter_eq_false_iff (text : List Char) :
    literalAfter false text = false ↔ Even (text.count quote) := by
  have h := literalAfter_eq_true_iff false text
  rw [Bool.toNat_false, Nat.add_zero] at h
  rw [← Bool.not_eq_true, h, Nat.even_iff]
  omega

theorem literalAfter_of_not_mem {text : List Char} (h : quote ∉ text) (inLiteral : Bool) :
    literalAfter inLiteral text = inLiteral := by
  induction text with
  | nil => rfl
  | cons c text ih =>
    rw [List.mem_cons, not_or] at h
    rw [literalAfter, if_neg (Ne.symm h.1), ih h.2]

theorem countFrom_of_not_mem {text : List Char} (h : mark ∉ text) (inLiteral : Bool) :
    countFrom inLiteral text = 0 := by
  induction text generalizing inLiteral with
  | nil => rfl
  | cons c text ih =>
    rw [List.mem_cons, not_or] at h
    have hm : ¬(c = mark ∧ inLiteral = false) := fun hm => h.1 hm.1.symm
    rw [countFrom, if_neg hm, ih h.2, ih h.2, ite_self]

theorem countFrom_singleton {inLiteral : Bool} {c : Char}
    (h : ¬(c = mark ∧ inLiteral = false)) : countFrom inLiteral [c] = 0 := by
  simp only [countFrom, if_neg h, ite_self]

/-- A question mark that does not count stands in a literal. -/
theorem literalAfter_of_countFrom_eq_zero {front back : List Char}
    (h : countFrom false (front ++ mark :: back) = 0) : literalAfter false front = true := by
  rw [countFrom_append] at h
  cases hl : literalAfter false front with
  | true => rfl
  | false =>
    rw [hl, countFrom, if_neg (by decide), if_pos ⟨rfl, rfl⟩] at h
    omega

/-! ## Steps of the scan -/

namespace Draft

theorem write_write (d : Draft) (a b : List Char) : (d.write a).write b = d.write (a ++ b) := by
  simp only [write, List.reverse_append, List.append_assoc]

theorem reverse_written_write (d : Draft) (text : List Char) :
    (d.write text).written.reverse = d.written.reverse ++ text := by
  simp [write]

end Draft

/-- The scan that looks back at what it has written and leaves a question mark for which no value is
left. -/
def scan : Bool → Draft → List Value → List Char → Draft
  | _, d, _, [] => d
  | inLiteral, d, values, c :: rest =>
    if c = quote then scan (!inLiteral) (d.write [c]) values rest
    else if c = mark ∧ inLiteral = false then
      match values with
      | [] => scan inLiteral (d.write [c]) [] rest
      | v :: values =>
        let bare := d.written.head? == some '(' && rest.head? == some ')'
        let filled := d.fill v bare
        if filled.2 then
          match rest with
          | [] => filled.1
          | _ :: after => scan inLiteral filled.1 values after
        else scan inLiteral filled.1 values rest
    else scan inLiteral (d.write [c]) values rest
termination_by structural _ _ _ text => text

theorem scan_quote (inLiteral : Bool) (d : Draft) (values : List Value) (rest : List Char) :
    scan inLiteral d values (quote :: rest)
      = scan (!inLiteral) (d.write [quote]) values rest := by
  rw [scan.eq_def]
  exact if_pos rfl

/-- Any other character that is no placeholder is written. -/
theorem scan_char {inLiteral : Bool} {c : Char} (hq : c ≠ quote)
    (hm : ¬(c = mark ∧ inLiteral = false)) (d : Draft) (values : List Value) (rest : List Char) :
    scan inLiteral d values (c :: rest) = scan inLiteral (d.write [c]) values rest := by
  rw [scan.eq_def]
  show (if c = quote then _ else if c = mark ∧ inLiteral = false then _ else _) = _
  rw [if_neg hq, if_neg hm]

/-- Text without placeholders is written as it stands. -/
theorem scan_plain {inLiteral : Bool} {a : List Char} (h : countFrom inLiteral a = 0)
    (d : Draft) (values : List Value) (b : List Char) :
    scan inLiteral d values (a ++ b)
      = scan (literalAfter inLiteral a) (d.write a) values b := by
  induction a generalizing inLiteral d with
  | nil => rfl
  | cons c a ih =>
    have hw : (d.write [c]).write a = d.write (c :: a) := d.write_write [c] a
    rw [countFrom] at h
    rw [List.cons_append, literalAfter, ← hw]
    by_cases hq : c = quote
    · rw [if_pos hq] at h ⊢
      rw [hq, scan_quote]
      exact ih h _
    · rw [if_neg hq] at h ⊢
      by_cases hm : c = mark ∧ inLiteral = false
      · rw [if_pos hm] at h
        omega
      · rw [if_neg hm] at h
        rw [scan_char hq hm]
        exact ih h _

theorem scan_cons {inLiteral : Bool} {c : Char} (h : countFrom inLiteral [c] = 0) (d : Draft)
    (values : List Value) (rest : List Char) :
    scan inLiteral d values (c :: rest)
      = scan (literalAfter inLiteral [c]) (d.write [c]) values rest :=
  scan_plain h d values rest

theorem countFrom_cons {inLiteral : Bool} {c : Char} (h : countFrom inLiteral [c] = 0)
    (rest : List Char) :
    countFrom inLiteral (c :: rest) = countFrom (literalAfter inLiteral [c]) rest := by
  have happend := countFrom_append inLiteral [c] rest
  rwa [h, Nat.zero_add] at happend

end Placeholder
end SqlClause
