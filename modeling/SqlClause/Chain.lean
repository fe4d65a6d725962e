import SqlClause.Group

/-!
Chains of predicates.  Predicates and connectives take turns, brackets open only before a predicate
and close only after one.  The type of a chain says which of the two places it has come to, so no
other chain can be written down.
-/

namespace SqlClause

inductive Place where
  | beforePredicate
  | afterPredicate
  deriving DecidableEq

inductive Chain : Place → Type where
  | start : Chain .beforePredicate
  | openBracket (c : Chain .beforePredicate) : Chain .beforePredicate
  | predicate (c : Chain .beforePredicate) (p : Predicate) : Chain .afterPredicate
  | join (c : Chain .afterPredicate) (word : Connective) : Chain .beforePredicate
  | closeBracket (c : Chain .afterPredicate) : Chain .afterPredicate

namespace Chain

def group : {place : Place} → Chain place → Group
  | _, .start => .empty
  | _, .openBracket c => c.group.openBracket
  | _, .predicate c p => c.group.addPredicate p
  | _, .join c word => c.group.addConnective word
  | _, .closeBracket c => c.group.closeBracket

def predicates : {place : Place} → Chain place → List Predicate
  | _, .start => []
  | _, .openBracket c => c.predicates
  | _, .predicate c p => c.predicates ++ [p]
  | _, .join c _ => c.predicates
  | _, .closeBracket c => c.predicates

theorem values_group {place : Place} (c : Chain place) :
    c.group.values = c.predicates.map Predicate.bound := by
  induction c with
  | start => rfl
  | openBracket c ih => exact ih
  | predicate c p ih => simp [group, predicates, Group.addPredicate, ih]
  | join c word ih => exact ih
  | closeBracket c ih => exact ih

/-- After a predicate the group is shown within the handle that can go on. -/
def diagnostic : {place : Place} → Chain place → String
  | .beforePredicate, c => c.group.diagnostic
  | .afterPredicate, c => "LogicJoiner \x7b cond: " ++ c.group.diagnostic ++ " \x7d"

end Chain

inductive Opening where
  | bare
  /-- A word stands before the group unless it is the first. -/
  | joined (word : Connective)
  /-- All that is there becomes one group first. -/
  | regrouped (word : Connective)

inductive Closing where
  | plain
  | bracketed

def Closing.wrap : Closing → String → String
  | .plain, text => text
  | .bracketed, text => "(" ++ text ++ ")"

end SqlClause
