import SqlClause.Column
import SqlClause.Value.Printer

/-!
Predicates: a column compared with an operand.  The text of a predicate holds exactly one
placeholder of its own, and the value bound to it is the operand as its operator shapes it.
-/

namespace SqlClause

inductive Operator where
  | eq
  | ne
  | ge
  | le
  | gt
  | lt
  | contains
  | startsWith
  | endsWith
  | isIn
  | notIn
  deriving DecidableEq

namespace Operator

def template : Operator → String
  | .eq => " = ?"
  | .ne => " != ?"
  | .ge => " >= ?"
  | .le => " <= ?"
  | .gt => " > ?"
  | .lt => " < ?"
  | .contains | .startsWith | .endsWith => " LIKE ?"
  | .isIn => " IN (?)"
  | .notIn => " NOT IN (?)"

def render (op : Operator) (column : Column) : String := column.text ++ op.template

/-- Pattern operators bind the display text of the operand with a wildcard on each open side.  All
others bind the operand itself, a list whole. -/
def bind (op : Operator) (operand : Value) : Value :=
  match op with
  | .contains => .text ("%" ++ operand.display ++ "%")
  | .startsWith => .text (operand.display ++ "%")
  | .endsWith => .text ("%" ++ operand.display)
  | _ => operand

def isPattern : Operator → Bool
  | .contains | .startsWith | .endsWith => true
  | _ => false

end Operator

structure Predicate where
  column : Column
  operator : Operator
  operand : Value

namespace Predicate

def text (p : Predicate) : String := p.operator.render p.column

def bound (p : Predicate) : Value := p.operator.bind p.operand

end Predicate
end SqlClause
