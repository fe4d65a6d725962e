import SqlClause.Value.Basic

/-!
Values that differ from themselves.

All that makes up a value equals itself, but for a fraction that is no number.  Such a fraction may
be the value itself, an item of a list or a number in a document, at any depth, and then the value
differs from itself as well (`Value.beq_self`).
-/

namespace SqlClause

namespace Number.Binary64

theorem beq_self (x : Binary64) : beq x x = !x.isNaN := by
  unfold beq isNaN
  cases x.datum with
  | finite negative significand exponent =>
    cases significand with
    | zero => rfl
    | succ n => exact decide_eq_true rfl
  | infinite negative => exact decide_eq_true rfl
  | notANumber => rfl

end Number.Binary64

namespace Json

def Number.holdsNaN : Number → Bool
  | .integer _ => false
  | .fraction x => x.isNaN

mutual

def holdsNaN : Json → Bool
  | .null => false
  | .bool _ => false
  | .number n => n.holdsNaN
  | .string _ => false
  | .array items => itemsHoldNaN items
  | .object members => membersHoldNaN members

def itemsHoldNaN : List Json → Bool
  | [] => false
  | x :: xs => x.holdsNaN || itemsHoldNaN xs

def membersHoldNaN : List (String × Json) → Bool
  | [] => false
  | (_, x) :: xs => x.holdsNaN || membersHoldNaN xs

end

theorem Number.beq_self (n : Number) : beq n n = !n.holdsNaN := by
  cases n with
  | integer n => exact beq_self_eq_true n
  | fraction x => exact x.beq_self

mutual

theorem beq_self : ∀ j : Json, beq j j = !j.holdsNaN
  | .null => rfl
  | .bool b => beq_self_eq_true b
  | .number n => n.beq_self
  | .string s => beq_self_eq_true s
  | .array items => beqItems_self items
  | .object members => beqMembers_self members

theorem beqItems_self : ∀ items : List Json, beqItems items items = !itemsHoldNaN items
  | [] => rfl
  | x :: xs => by rw [beqItems, itemsHoldNaN, Bool.not_or, beq_self x, beqItems_self xs]

theorem beqMembers_self : ∀ members : List (String × Json),
    beqMembers members members = !membersHoldNaN members
  | [] => rfl
  | (name, x) :: xs => by
    rw [beqMembers, membersHoldNaN, Bool.not_or, beq_self_eq_true name, Bool.true_and, beq_self x,
      beqMembers_self xs]

end

end Json

namespace Value

mutual

/-- Whether a fraction that is no number stands anywhere in the value. -/
def holdsNaN : Value → Bool
  | .float x => x.isNaN
  | .json j => j.holdsNaN
  | .list items => itemsHoldNaN items
  | _ => false

def itemsHoldNaN : List Value → Bool
  | [] => false
  | x :: xs => x.holdsNaN || itemsHoldNaN xs

end

theorem itemsHoldNaN_eq_false_iff (items : List Value) :
    itemsHoldNaN items = false ↔ ∀ v ∈ items, v.holdsNaN = false := by
  induction items with
  | nil => exact iff_of_true rfl nofun
  | cons x xs ih => rw [itemsHoldNaN, Bool.or_eq_false_iff, ih, List.forall_mem_cons]

mutual

theorem beq_self : ∀ v : Value, beq v v = !v.holdsNaN
  | .null => rfl
  | .bool b => beq_self_eq_true b
  | .int n => beq_self_eq_true n
  | .uint n => beq_self_eq_true n
  | .float x => x.beq_self
  | .text s => beq_self_eq_true s
  | .uuid u => beq_self_eq_true u
  | .timestamp t => beq_self_eq_true t
  | .date d => beq_self_eq_true d
  | .json j => j.beq_self
  | .list items => beqItems_self items

theorem beqItems_self : ∀ items : List Value, beqItems items items = !itemsHoldNaN items
  | [] => rfl
  | x :: xs => by rw [beqItems, itemsHoldNaN, Bool.not_or, beq_self x, beqItems_self xs]

end

end Value
end SqlClause
