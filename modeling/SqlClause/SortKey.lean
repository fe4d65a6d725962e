import SqlClause.Column

/-!
Entries of an ORDER BY list.
-/

namespace SqlClause

/-- Ascending if nothing is said. -/
inductive Direction where
  | ascending
  | descending
  deriving DecidableEq, Inhabited

def Direction.text : Direction → String
  | .ascending => "ASC"
  | .descending => "DESC"

structure SortKey where
  column : Column
  direction : Direction
  deriving DecidableEq

def SortKey.text (k : SortKey) : String := k.column.text ++ " " ++ k.direction.text

end SqlClause
