import SqlClause.Text.Abbreviation

/-!
What an observer is told while a clause is put together.  Events carry counts and clause text, never
values.
-/

namespace SqlClause

inductive Event where
  /-- A chain left brackets open, or closed too many of them. -/
  | unbalanced (depth : Int) (clause : String)
  /-- A chain was ended and its predicates became part of the query. -/
  | flushed (valueCount : Nat) (clause : String)
  /-- All that a query held became one group. -/
  | regrouped (fragmentCount : Nat) (clause : String)
  deriving DecidableEq

namespace Event

/-- The length in bytes of the longest clause that is shown whole. -/
def clauseLimit : Nat := 200

def shown (clause : String) : String := Text.abbreviate clause clauseLimit

def level : Event → String
  | .unbalanced .. => "WARN"
  | .flushed .. | .regrouped .. => "TRACE"

def target : Event → String
  | .unbalanced .. | .flushed .. => "gormqy.condition"
  | .regrouped .. => "gormqy.query"

def message : Event → String
  | .unbalanced .. => "condition group has unbalanced brackets"
  | .flushed .. => "condition group flushed"
  | .regrouped .. => "conditions regrouped"

end Event
end SqlClause
