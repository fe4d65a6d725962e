import SqlClause.Query.Basic

/-!
Runs of operations on a query.  A chain is one operation from its start to its end, since nothing
else can touch the query in between.
-/

namespace SqlClause

inductive Operation where
  | chain (opening : Opening) (steps : Chain .afterPredicate) (closing : Closing)
  /-- A chain that is given up.  What its start did to the query stays. -/
  | abandoned (opening : Opening) {place : Place} (steps : Chain place)
  | regroup
  | sort (key : SortKey)
  | limit (limit : UInt64)

namespace Query

def apply (q : Query) : Operation → Query
  | .chain opening steps closing => (q.begin opening).flush steps.group closing
  | .abandoned opening _ => q.begin opening
  | .regroup => q.regroup
  | .sort key => q.addSortKey key
  | .limit limit => q.setLimit limit

/-- What an observer is told during an operation. -/
def events (q : Query) : Operation → List Event
  | .chain opening steps closing => q.beginEvents opening ++ flushEvents steps.group closing
  | .abandoned opening _ => q.beginEvents opening
  | .regroup => q.regroupEvents
  | .sort _ => []
  | .limit _ => []

def applyAll (q : Query) (operations : List Operation) : Query := operations.foldl apply q

def log : Query → List Operation → List Event
  | _, [] => []
  | q, op :: rest => q.events op ++ (q.apply op).log rest

end Query
end SqlClause
