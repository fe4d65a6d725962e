import SqlClause.Chain
import SqlClause.Event
import SqlClause.SortKey

/-!
Queries: the WHERE clause with the values bound to its placeholders, the ORDER BY list and the limit
on rows.  The clause is kept as a list of groups and of the words between them.
-/

namespace SqlClause

/-- A piece of a clause at its top level. -/
inductive Fragment where
  | group (text : String)
  | word (word : Connective)
  deriving DecidableEq

def Fragment.text : Fragment → String
  | .group text => text
  | .word w => w.text

structure Query where
  fragments : List Fragment
  /-- In the order of the placeholders. -/
  values : List Value
  sortKeys : List SortKey
  /-- No limit if zero. -/
  limit : UInt64

namespace Query

def empty : Query := ⟨[], [], [], 0⟩

/-- Compares the pieces, so two clauses of one text can differ. -/
def beq (q r : Query) : Bool :=
  q.fragments == r.fragments && Value.beqItems q.values r.values
    && q.sortKeys == r.sortKeys && q.limit == r.limit

instance : BEq Query := ⟨beq⟩

def isEmpty (q : Query) : Bool := q.fragments.isEmpty

/-- The clause without the word WHERE. -/
def clause (q : Query) : String := " ".intercalate (q.fragments.map Fragment.text)

def whereClause (q : Query) : String × List Value := (q.clause, q.values)

/-- The parts of a query that is done with. -/
def intoWhere (q : Query) : String × List Value :=
  (" ".intercalate (q.fragments.map Fragment.text), q.values)

/-- The list without the words ORDER BY. -/
def order (q : Query) : String := ", ".intercalate (q.sortKeys.map SortKey.text)

def hasOrder (q : Query) : Bool := !q.sortKeys.isEmpty

/-- The clause in brackets as the only piece.  The values keep their order. -/
def regroup (q : Query) : Query :=
  if q.isEmpty then q else { q with fragments := [.group ("(" ++ q.clause ++ ")")] }

/-- The first piece is never a word. -/
def pushWord (q : Query) (word : Connective) : Query :=
  if q.isEmpty then q else { q with fragments := q.fragments ++ [.word word] }

/-- What the start of a chain does at once. -/
def begin (q : Query) : Opening → Query
  | .bare => q
  | .joined word => q.pushWord word
  | .regrouped word => q.regroup.pushWord word

/-- Takes over the text and the values of a group. -/
def flush (q : Query) (g : Group) (closing : Closing) : Query :=
  { q with
    fragments := q.fragments ++ [.group (closing.wrap g.text)]
    values := q.values ++ g.values }

def addSortKey (q : Query) (key : SortKey) : Query := { q with sortKeys := q.sortKeys ++ [key] }

def setLimit (q : Query) (limit : UInt64) : Query := { q with limit }

/-! ## Events -/

def regroupEvents (q : Query) : List Event :=
  if q.isEmpty then []
  else [.regrouped q.fragments.length (Event.shown ("(" ++ q.clause ++ ")"))]

def beginEvents (q : Query) : Opening → List Event
  | .regrouped _ => q.regroupEvents
  | _ => []

/-- A warning comes before the event that it is about. -/
def flushEvents (g : Group) (closing : Closing) : List Event :=
  let clause := Event.shown (closing.wrap g.text)
  (if g.depth = 0 then [] else [.unbalanced g.depth clause])
    ++ [.flushed g.values.length clause]

end Query
end SqlClause
