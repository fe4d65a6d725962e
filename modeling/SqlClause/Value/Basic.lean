import SqlClause.Calendar.Timestamp
import SqlClause.Json.Basic
import SqlClause.Number.Binary
import SqlClause.Uuid

/-!
Values that are bound to placeholders.  A list is a value too: a membership test binds it whole.
-/

namespace SqlClause

inductive Value where
  | null
  | bool (b : Bool)
  | int (n : Int64)
  | uint (n : UInt64)
  | float (x : Number.Binary64)
  | text (s : String)
  | uuid (u : Uuid)
  | timestamp (t : Calendar.Timestamp)
  | date (d : Calendar.Date)
  | json (j : Json)
  | list (items : List Value)

namespace Value

def isNull : Value → Bool
  | .null => true
  | _ => false

def isList : Value → Bool
  | .list _ => true
  | _ => false

def asText? : Value → Option String
  | .text s => some s
  | _ => none

def asList? : Value → Option (List Value)
  | .list items => some items
  | _ => none

mutual

/-- Values of two kinds are never equal, whatever they hold.  Fractions compare as numbers, so a
list in which one of them is no number differs from itself. -/
def beq : Value → Value → Bool
  | .null, .null => true
  | .bool a, .bool b => a == b
  | .int m, .int n => m == n
  | .uint m, .uint n => m == n
  | .float x, .float y => x == y
  | .text s, .text t => s == t
  | .uuid u, .uuid v => u == v
  | .timestamp s, .timestamp t => s == t
  | .date d, .date e => d == e
  | .json i, .json j => i == j
  | .list xs, .list ys => beqItems xs ys
  | _, _ => false

def beqItems : List Value → List Value → Bool
  | [], [] => true
  | x :: xs, y :: ys => beq x y && beqItems xs ys
  | _, _ => false

end

instance : BEq Value := ⟨beq⟩

end Value
end SqlClause
