import SqlClause.Predicate
import SqlClause.Proofs.Placeholder.Filling

/-!
Predicates in a clause.

The text of a predicate is its column, the sign of its operator and its own question mark, which
stands alone in its brackets if the predicate tests membership and is free otherwise
(`template_eq`).  If the column has an even number of quotes and no placeholder, the scan takes one
value for the predicate and comes out of it outside literals (`scan_predicate`).
-/

namespace SqlClause

open Placeholder

/-- No literal of the column runs on behind it. -/
def Column.EvenQuotes (c : Column) : Prop := Even (c.text.toList.count quote)

instance (c : Column) : Decidable c.EvenQuotes := inferInstanceAs (Decidable (Even _))

theorem Column.EvenQuotes.literalAfter {c : Column} (h : c.EvenQuotes) :
    literalAfter false c.text.toList = false :=
  (literalAfter_eq_false_iff _).mpr h

namespace Operator

def isMembership : Operator → Bool
  | .isIn | .notIn => true
  | _ => false

def sign : Operator → String
  | .eq => "="
  | .ne => "!="
  | .ge => ">="
  | .le => "<="
  | .gt => ">"
  | .lt => "<"
  | .contains | .startsWith | .endsWith => "LIKE"
  | .isIn => "IN"
  | .notIn => "NOT IN"

/-- What stands between a column and the question mark. -/
def lead (op : Operator) : List Char :=
  ' ' :: (op.sign.toList ++ if op.isMembership then [' ', '('] else [' '])

/-- What stands behind the question mark. -/
def trail (op : Operator) : List Char := if op.isMembership then [')'] else []

theorem template_eq (op : Operator) : op.template.toList = op.lead ++ mark :: op.trail := by
  cases op <;> decide

theorem quote_not_mem_lead (op : Operator) : quote ∉ op.lead := by
  cases op <;> decide

theorem mark_not_mem_lead (op : Operator) : mark ∉ op.lead := by
  cases op <;> decide

theorem quote_not_mem_trail (op : Operator) : quote ∉ op.trail := by
  cases op <;> decide

theorem mark_not_mem_trail (op : Operator) : mark ∉ op.trail := by
  cases op <;> decide

theorem getLast?_lead (op : Operator) :
    op.lead.getLast? = some (if op.isMembership then '(' else ' ') := by
  cases op <;> decide

theorem isMembership_iff (op : Operator) :
    op.isMembership = true ↔ op = .isIn ∨ op = .notIn := by
  cases op <;> decide

theorem bind_of_isMembership {op : Operator} (h : op.isMembership = true) (v : Value) :
    op.bind v = v := by
  cases op <;> first | rfl | cases h

end Operator

namespace Predicate

/-- The text up to the question mark. -/
def front (p : Predicate) : List Char := p.column.text.toList ++ p.operator.lead

theorem toList_text (p : Predicate) :
    p.text.toList = p.front ++ mark :: p.operator.trail := by
  show (p.column.text ++ p.operator.template).toList = _
  rw [String.toList_append, Operator.template_eq, front, List.append_assoc]

variable {p : Predicate}

theorem literalAfter_front (h : p.column.EvenQuotes) : literalAfter false p.front = false := by
  rw [front, literalAfter_append, h.literalAfter,
    literalAfter_of_not_mem p.operator.quote_not_mem_lead]

theorem countFrom_front (h : p.column.EvenQuotes) :
    countFrom false p.front = count p.column.text := by
  rw [front, countFrom_append, h.literalAfter, countFrom_of_not_mem p.operator.mark_not_mem_lead]
  rfl

theorem literalAfter_text (h : p.column.EvenQuotes) :
    literalAfter false p.text.toList = false := by
  rw [toList_text, literalAfter_append, literalAfter_front h]
  exact literalAfter_of_not_mem p.operator.quote_not_mem_trail false

/-- A predicate has one placeholder beside those of its column. -/
theorem countFrom_text (h : p.column.EvenQuotes) :
    countFrom false p.text.toList = count p.column.text + 1 := by
  have htrail : countFrom false (mark :: p.operator.trail)
      = countFrom false p.operator.trail + 1 := rfl
  rw [toList_text, countFrom_append, literalAfter_front h, countFrom_front h, htrail,
    countFrom_of_not_mem p.operator.mark_not_mem_trail]

/-! ## The scan -/

theorem filling_of_comparison {op : Operator} (h : op.isMembership = false)
    (before after : List Char) (v : Value) :
    filling (before ++ op.lead) after v = .slots [.param v] := by
  have hlast : (before ++ op.lead).getLast? = some ' ' := by
    rw [List.getLast?_append, op.getLast?_lead, h]
    rfl
  unfold filling
  rw [hlast, if_neg]
  rintro ⟨hb, -⟩
  cases hb

theorem filling_of_membership {op : Operator} (h : op.isMembership = true)
    (before after : List Char) (v : Value) :
    filling (before ++ op.lead) (')' :: after) v
      = match v with
        | .list [] =>
          if Draft.notIn <:+ before ++ op.lead then .always
          else .slots (Slot.chars ['N', 'U', 'L', 'L'])
        | .list items => .slots (Slot.items items)
        | v => .slots [.param v] := by
  have hlast : (before ++ op.lead).getLast? = some '(' := by
    rw [List.getLast?_append, op.getLast?_lead, h]
    rfl
  rw [filling_eq, hlast]
  exact if_pos ⟨rfl, rfl⟩

/-- Nothing behind a predicate counts for what is put into it. -/
theorem filling_trail (op : Operator) (before rest : List Char) (v : Value) :
    filling (before ++ op.lead) (op.trail ++ rest) v = filling (before ++ op.lead) op.trail v := by
  cases h : op.isMembership with
  | false => rw [filling_of_comparison h, filling_of_comparison h]
  | true =>
    rw [Operator.trail, if_pos h]
    exact (filling_of_membership h before rest v).trans (filling_of_membership h before [] v).symm

end Predicate

namespace Placeholder

/-- A draft with a predicate and its value at its end. -/
def Draft.addPredicate (d : Draft) (p : Predicate) : Draft :=
  let ready := d.write p.front
  match filling ready.written.reverse p.operator.trail p.bound with
  | .slots filled => (ready.put filled).write p.operator.trail
  | .always => ready.settle .always

theorem Draft.addPredicate_of_slots {d : Draft} {p : Predicate} {filled : List Slot}
    (h : filling (d.write p.front).written.reverse p.operator.trail p.bound = .slots filled) :
    d.addPredicate p = ((d.write p.front).put filled).write p.operator.trail := by
  rw [addPredicate, h]

theorem Draft.addPredicate_of_always {d : Draft} {p : Predicate}
    (h : filling (d.write p.front).written.reverse p.operator.trail p.bound = .always) :
    d.addPredicate p = (d.write p.front).settle .always := by
  rw [addPredicate, h]

theorem Draft.reverse_written_front (d : Draft) (p : Predicate) :
    (d.write p.front).written.reverse
      = (d.written.reverse ++ p.column.text.toList) ++ p.operator.lead := by
  rw [d.reverse_written_write, Predicate.front, List.append_assoc]

/-- What a test for membership is filled with behind the text that has been written. -/
theorem filling_of_operand {p : Predicate} (h : p.operator.isMembership = true) (d : Draft) :
    filling (d.write p.front).written.reverse p.operator.trail p.bound
      = match p.operand with
        | .list [] =>
          if Draft.notIn <:+ (d.write p.front).written.reverse then .always
          else .slots (Slot.chars ['N', 'U', 'L', 'L'])
        | .list items => .slots (Slot.items items)
        | _ => .slots [.param p.bound] := by
  have hbound : p.bound = p.operand := Operator.bind_of_isMembership h p.operand
  rw [d.reverse_written_front, Operator.trail, if_pos h, Predicate.filling_of_membership h, hbound]
  cases p.operand with
  | list items => cases items <;> rfl
  | _ => rfl

theorem scan_predicate {p : Predicate} (heven : p.column.EvenQuotes)
    (hmark : count p.column.text = 0) (d : Draft) (values : List Value) (rest : List Char) :
    scan false d (p.bound :: values) (p.text.toList ++ rest)
      = scan false (d.addPredicate p) values rest := by
  have hfill : filling (d.write p.front).written.reverse (p.operator.trail ++ rest) p.bound
      = filling (d.write p.front).written.reverse p.operator.trail p.bound := by
    rw [d.reverse_written_front, Predicate.filling_trail]
  have hfront : countFrom false p.front = 0 := (Predicate.countFrom_front heven).trans hmark
  rw [p.toList_text, List.append_assoc, scan_plain hfront, Predicate.literalAfter_front heven,
    List.cons_append, scan_mark hfill]
  cases hf : filling (d.write p.front).written.reverse p.operator.trail p.bound with
  | slots filled =>
    have htrail := countFrom_of_not_mem p.operator.mark_not_mem_trail false
    rw [Draft.addPredicate_of_slots hf]
    show scan false _ values (p.operator.trail ++ rest) = _
    rw [scan_plain htrail, literalAfter_of_not_mem p.operator.quote_not_mem_trail]
    rfl
  | always =>
    have hhead := (of_filling_eq_always hf).2
    have htrail : p.operator.trail = [')'] := by
      cases hm : p.operator.isMembership with
      | false =>
        rw [Operator.trail, hm] at hhead
        cases hhead
      | true =>
        rw [Operator.trail, hm]
        rfl
    rw [Draft.addPredicate_of_always hf]
    show scan false _ values (p.operator.trail ++ rest).tail = _
    rw [htrail]
    rfl

end Placeholder
end SqlClause
