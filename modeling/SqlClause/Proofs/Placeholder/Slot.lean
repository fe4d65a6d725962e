import SqlClause.Proofs.Placeholder.Scan

/-!
Clauses with open places.  A slot is a character of a clause or the place of a param, and a clause
made of slots says which params it takes and where without saying how they are numbered.  Numbers
come in only when the slots are rendered, from left to right with no gap (`Slot.render`).  Writing
slots to a draft does the same (`Draft.put_eq_append`).
-/

namespace SqlClause
namespace Placeholder

inductive Slot where
  | char (c : Char)
  | param (v : Value)

def dollar (n : Nat) : String := "$" ++ toString n

def dollars (next count : Nat) : String :=
  ", ".intercalate ((List.range' next count).map dollar)

theorem isDigit_of_mem_toString {n : Nat} {c : Char} (h : c ∈ (toString n).toList) :
    c.isDigit := by
  rw [Nat.toString_eq_repr, Nat.repr_eq_ofList_toDigits, String.toList_ofList] at h
  exact Nat.isDigit_of_mem_toDigits (by decide) (by decide) h

namespace Slot

def chars (text : List Char) : List Slot := text.map char

/-- The values with commas between them. -/
def items (values : List Value) : List Slot :=
  (chars [',', ' ']).intercalate (values.map fun v => [param v])

def params : List Slot → List Value
  | [] => []
  | char _ :: rest => params rest
  | param v :: rest => v :: params rest

/-- The slots as text.  The params are numbered from `next` on. -/
def render : Nat → List Slot → List Char
  | _, [] => []
  | next, char c :: rest => c :: render next rest
  | next, param _ :: rest => '$' :: (toString next).toList ++ render (next + 1) rest

theorem params_append (a b : List Slot) : params (a ++ b) = params a ++ params b := by
  induction a with
  | nil => rfl
  | cons s a ih => cases s <;> simp [params, ih]

theorem params_chars (text : List Char) : params (chars text) = [] := by
  induction text with
  | nil => rfl
  | cons c text ih => exact ih

theorem items_cons_cons (v w : Value) (rest : List Value) :
    items (v :: w :: rest) = param v :: (chars [',', ' '] ++ items (w :: rest)) := by
  simp only [items, List.map_cons, List.intercalate_cons_cons, List.cons_append, List.nil_append]

theorem params_items (values : List Value) : params (items values) = values := by
  induction values with
  | nil => rfl
  | cons v values ih =>
    cases values with
    | nil => rfl
    | cons w rest =>
      rw [items_cons_cons, params, params_append, params_chars, ih]
      rfl

/-- Numbers go on after the params of the first part. -/
theorem render_append (next : Nat) (a b : List Slot) :
    render next (a ++ b) = render next a ++ render (next + (params a).length) b := by
  induction a generalizing next with
  | nil => rfl
  | cons s a ih =>
    cases s with
    | char c => simp only [List.cons_append, render, params, ih]
    | param v =>
      simp only [List.cons_append, render, params, ih, List.length_cons, List.append_assoc]
      rw [show next + 1 + (params a).length = next + ((params a).length + 1) by omega]

theorem render_chars (next : Nat) (text : List Char) : render next (chars text) = text := by
  induction text with
  | nil => rfl
  | cons c text ih => exact congrArg (c :: ·) ih

theorem render_param (next : Nat) (v : Value) :
    render next [.param v] = (dollar next).toList := by
  show '$' :: (toString next).toList ++ [] = _
  rw [dollar, String.toList_append, List.append_nil]
  rfl

theorem render_items (next : Nat) (values : List Value) :
    render next (items values) = (dollars next values.length).toList := by
  induction values generalizing next with
  | nil => rfl
  | cons v values ih =>
    cases values with
    | nil => exact render_param next v
    | cons w rest =>
      have hcomma : render (next + 1) (chars [',', ' '] ++ items (w :: rest))
          = [',', ' '] ++ (dollars (next + 1) (w :: rest).length).toList := by
        rw [render_append, render_chars, params_chars, List.length_nil,
          Nat.add_zero, ih]
      have hdollars : dollars next (v :: w :: rest).length
          = dollar next ++ ", " ++ dollars (next + 1) (w :: rest).length :=
        String.intercalate_cons_cons
      rw [items_cons_cons, render, hcomma, hdollars, String.toList_append,
        String.toList_append, dollar, String.toList_append, List.append_assoc]
      rfl

end Slot

/-! ## Writing slots -/

namespace Draft

def put (d : Draft) : List Slot → Draft
  | [] => d
  | .char c :: rest => (d.write [c]).put rest
  | .param v :: rest => (d.bind v).put rest

theorem put_append (d : Draft) (a b : List Slot) : d.put (a ++ b) = (d.put a).put b := by
  induction a generalizing d with
  | nil => rfl
  | cons s a ih => cases s <;> exact ih _

theorem put_chars (d : Draft) (text : List Char) : d.put (Slot.chars text) = d.write text := by
  induction text generalizing d with
  | nil => rfl
  | cons c text ih => exact (ih _).trans (d.write_write [c] text)

theorem put_items (d : Draft) (values : List Value) :
    d.put (Slot.items values) = d.bindAll values := by
  induction values generalizing d with
  | nil => rfl
  | cons v values ih =>
    cases values with
    | nil => rfl
    | cons w rest =>
      rw [Slot.items_cons_cons, put, put_append, put_chars, ih]
      rfl

/-- A draft with a numbered text at its end. -/
def append (d : Draft) (text : List Char) (params : List Value) : Draft :=
  ⟨text.reverse ++ d.written, params.reverse ++ d.params, d.next + params.length⟩

theorem append_append (d : Draft) (a b : List Char) (ps qs : List Value) :
    (d.append a ps).append b qs = d.append (a ++ b) (ps ++ qs) := by
  simp only [append, List.reverse_append, List.append_assoc, List.length_append, Nat.add_assoc]

theorem put_eq_append (d : Draft) (slots : List Slot) :
    d.put slots = d.append (Slot.render d.next slots) (Slot.params slots) := by
  induction slots generalizing d with
  | nil => rfl
  | cons s slots ih =>
    cases s with
    | char c =>
      rw [put, ih]
      exact d.append_append [c] _ [] _
    | param v =>
      have hb : d.bind v = d.append ('$' :: (toString d.next).toList) [v] := by
        simp [bind, append]
      rw [put, ih, hb, append_append]
      rfl

end Draft

end Placeholder
end SqlClause
