/-!
Placeholders of a clause: question marks outside literals.  Each single quote changes between inside
and outside, so a doubled quote within a literal leaves and enters it again.
-/

namespace SqlClause
namespace Placeholder

def mark : Char := '?'

def quote : Char := '\x27'

/-- The number of placeholders in a text that starts inside or outside a literal. -/
def countFrom : Bool → List Char → Nat
  | _, [] => 0
  | inLiteral, c :: rest =>
    if c = quote then countFrom (!inLiteral) rest
    else if c = mark ∧ inLiteral = false then countFrom inLiteral rest + 1
    else countFrom inLiteral rest

def count (sql : String) : Nat := countFrom false sql.toList

/-- Whether the end of a text is inside a literal. -/
def literalAfter : Bool → List Char → Bool
  | inLiteral, [] => inLiteral
  | inLiteral, c :: rest => literalAfter (if c = quote then !inLiteral else inLiteral) rest

theorem literalAfter_append (inLiteral : Bool) (a b : List Char) :
    literalAfter inLiteral (a ++ b) = literalAfter (literalAfter inLiteral a) b := by
  induction a generalizing inLiteral with
  | nil => rfl
  | cons c a ih => exact ih _

/-- The second text is read in the state that the first one leaves. -/
theorem countFrom_append (inLiteral : Bool) (a b : List Char) :
    countFrom inLiteral (a ++ b)
      = countFrom inLiteral a + countFrom (literalAfter inLiteral a) b := by
  induction a generalizing inLiteral with
  | nil => simp [countFrom, literalAfter]
  | cons c a ih =>
    simp only [List.cons_append, countFrom, literalAfter]
    by_cases hq : c = quote
    · rw [if_pos hq, if_pos hq, if_pos hq, ih]
    · rw [if_neg hq, if_neg hq, if_neg hq]
      by_cases hm : c = mark ∧ inLiteral = false
      · rw [if_pos hm, if_pos hm, ih]
        omega
      · rw [if_neg hm, if_neg hm, ih]

end Placeholder
end SqlClause
