import SqlClause.Number.Binary

/-!
JSON documents.  The members of an object are kept in the order of their names, each name once, so
equal documents are equal texts.
-/

namespace SqlClause

namespace Json

/-- A number is an integer of 64 bits, with or without a sign, or a binary fraction.  The two kinds
are never equal. -/
inductive Number where
  | integer (n : Int)
  | fraction (x : Number.Binary64)

def Number.beq : Number → Number → Bool
  | .integer m, .integer n => m == n
  | .fraction x, .fraction y => x == y
  | _, _ => false

instance : BEq Number := ⟨Number.beq⟩

end Json

inductive Json where
  | null
  | bool (b : Bool)
  | number (n : Json.Number)
  | string (s : String)
  | array (items : List Json)
  | object (members : List (String × Json))

namespace Json

mutual

def beq : Json → Json → Bool
  | .null, .null => true
  | .bool a, .bool b => a == b
  | .number m, .number n => m == n
  | .string s, .string t => s == t
  | .array xs, .array ys => beqItems xs ys
  | .object xs, .object ys => beqMembers xs ys
  | _, _ => false

def beqItems : List Json → List Json → Bool
  | [], [] => true
  | x :: xs, y :: ys => beq x y && beqItems xs ys
  | _, _ => false

def beqMembers : List (String × Json) → List (String × Json) → Bool
  | [], [] => true
  | (k, x) :: xs, (l, y) :: ys => k == l && beq x y && beqMembers xs ys
  | _, _ => false

end

instance : BEq Json := ⟨beq⟩

/-- Puts a member in its place.  A name that is there already gets the new value. -/
def insertMember (name : String) (value : Json) :
    List (String × Json) → List (String × Json)
  | [] => [(name, value)]
  | (k, v) :: rest =>
    if name < k then (name, value) :: (k, v) :: rest
    else if name = k then (name, value) :: rest
    else (k, v) :: insertMember name value rest

/-- The object with these members, of which the last of a name counts. -/
def ofMembers (members : List (String × Json)) : Json :=
  .object (members.foldl (fun sorted (k, v) => insertMember k v sorted) [])

end Json
end SqlClause
