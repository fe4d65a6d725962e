/-!
The words between predicates and between groups.
-/

namespace SqlClause

inductive Connective where
  | and
  | or
  deriving DecidableEq

def Connective.text : Connective → String
  | .and => "AND"
  | .or => "OR"

end SqlClause
