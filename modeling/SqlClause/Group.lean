import SqlClause.Connective
import SqlClause.Predicate

/-!
The pieces of a group of predicates while it is put together.  An opening bracket waits for the
predicate that it stands before, a closing one goes to the end of the last piece, and so every piece
is a predicate with its brackets or a connective.
-/

namespace SqlClause

structure Group where
  fragments : List String
  values : List Value
  /-- Brackets that wait for the next predicate. -/
  pendingOpen : Nat
  /-- Opened less closed brackets, those that wait not counted. -/
  depth : Int

namespace Group

def empty : Group := ⟨[], [], 0, 0⟩

def openBracket (g : Group) : Group := { g with pendingOpen := g.pendingOpen + 1 }

def openBrackets (n : Nat) : String := String.ofList (List.replicate n '(')

def addPredicate (g : Group) (p : Predicate) : Group where
  fragments := g.fragments ++ [openBrackets g.pendingOpen ++ p.text]
  values := g.values ++ [p.bound]
  pendingOpen := 0
  depth := g.depth + g.pendingOpen

def addConnective (g : Group) (c : Connective) : Group :=
  { g with fragments := g.fragments ++ [c.text] }

/-- The pieces with a closing bracket after the last one. -/
def closeLast : List String → List String
  | [] => []
  | [last] => [last ++ ")"]
  | first :: rest => first :: closeLast rest

def closeBracket (g : Group) : Group :=
  { g with fragments := closeLast g.fragments, depth := g.depth - 1 }

def text (g : Group) : String := " ".intercalate g.fragments

/-- The pieces and values as diagnostics show them.  The depth is not shown. -/
def diagnostic (g : Group) : String :=
  "ConditionBuilder \x7b fragments: ["
    ++ ", ".intercalate (g.fragments.map Text.diagnosticQuote)
    ++ "], values: [" ++ ", ".intercalate (Value.itemDiagnostics g.values)
    ++ "], pending_open: " ++ toString g.pendingOpen ++ " \x7d"

end Group
end SqlClause
