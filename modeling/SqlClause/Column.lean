/-!
Columns and column expressions.  Their text goes into a clause as it is: nothing is quoted and
nothing is checked.
-/

namespace SqlClause

structure Column where
  text : String
  deriving DecidableEq

namespace Column

/-- The columns joined by a separator within SQL.  The separator stands in a literal, in which
nothing is escaped. -/
def concat (separator : String) (columns : List Column) : Column :=
  ⟨"concat_ws('" ++ separator ++ "', " ++ ", ".intercalate (columns.map Column.text) ++ ")"⟩

end Column
end SqlClause
