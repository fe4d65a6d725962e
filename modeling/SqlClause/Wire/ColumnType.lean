/-!
Types of columns, as the program is run with them.  The built-in ones are those that it is asked for
by name.  A custom one has a name, a number and a schema of its own, and is never the same as a
built-in one, even if all of these agree.
-/

namespace SqlClause
namespace Wire

inductive Builtin where
  | bool
  | bytea
  | char
  | name
  | int8
  | int2
  | int4
  | text
  | oid
  | json
  | float4
  | float8
  | unknown
  | bpchar
  | varchar
  | date
  | timestamp
  | timestamptz
  | numeric
  | uuid
  | jsonb
  | boolArray
  | nameArray
  | int2Array
  | int4Array
  | int8Array
  | textArray
  | varcharArray
  | bpcharArray
  | float4Array
  | float8Array
  | dateArray
  | timestampArray
  | timestamptzArray
  | uuidArray
  | jsonArray
  | jsonbArray
  | int2Vector
  | oidVector
  deriving DecidableEq

namespace Builtin

def all : List Builtin :=
  [.bool, .bytea, .char, .name, .int8, .int2, .int4, .text, .oid, .json, .float4, .float8,
    .unknown, .bpchar, .varchar, .date, .timestamp, .timestamptz, .numeric, .uuid, .jsonb,
    .boolArray, .nameArray, .int2Array, .int4Array, .int8Array, .textArray, .varcharArray,
    .bpcharArray, .float4Array, .float8Array, .dateArray, .timestampArray, .timestamptzArray,
    .uuidArray, .jsonArray, .jsonbArray, .int2Vector, .oidVector]

def catalogName : Builtin → String
  | .bool => "bool"
  | .bytea => "bytea"
  | .char => "char"
  | .name => "name"
  | .int8 => "int8"
  | .int2 => "int2"
  | .int4 => "int4"
  | .text => "text"
  | .oid => "oid"
  | .json => "json"
  | .float4 => "float4"
  | .float8 => "float8"
  | .unknown => "unknown"
  | .bpchar => "bpchar"
  | .varchar => "varchar"
  | .date => "date"
  | .timestamp => "timestamp"
  | .timestamptz => "timestamptz"
  | .numeric => "numeric"
  | .uuid => "uuid"
  | .jsonb => "jsonb"
  | .boolArray => "_bool"
  | .nameArray => "_name"
  | .int2Array => "_int2"
  | .int4Array => "_int4"
  | .int8Array => "_int8"
  | .textArray => "_text"
  | .varcharArray => "_varchar"
  | .bpcharArray => "_bpchar"
  | .float4Array => "_float4"
  | .float8Array => "_float8"
  | .dateArray => "_date"
  | .timestampArray => "_timestamp"
  | .timestamptzArray => "_timestamptz"
  | .uuidArray => "_uuid"
  | .jsonArray => "_json"
  | .jsonbArray => "_jsonb"
  | .int2Vector => "int2vector"
  | .oidVector => "oidvector"

def catalogNumber : Builtin → UInt32
  | .bool => 16
  | .bytea => 17
  | .char => 18
  | .name => 19
  | .int8 => 20
  | .int2 => 21
  | .int4 => 23
  | .text => 25
  | .oid => 26
  | .json => 114
  | .float4 => 700
  | .float8 => 701
  | .unknown => 705
  | .bpchar => 1042
  | .varchar => 1043
  | .date => 1082
  | .timestamp => 1114
  | .timestamptz => 1184
  | .numeric => 1700
  | .uuid => 2950
  | .jsonb => 3802
  | .boolArray => 1000
  | .nameArray => 1003
  | .int2Array => 1005
  | .int4Array => 1007
  | .int8Array => 1016
  | .textArray => 1009
  | .varcharArray => 1015
  | .bpcharArray => 1014
  | .float4Array => 1021
  | .float8Array => 1022
  | .dateArray => 1182
  | .timestampArray => 1115
  | .timestamptzArray => 1185
  | .uuidArray => 2951
  | .jsonArray => 199
  | .jsonbArray => 3807
  | .int2Vector => 22
  | .oidVector => 30

/-- The type of the items, if the type is one of arrays. -/
def member? : Builtin → Option Builtin
  | .boolArray => some .bool
  | .nameArray => some .name
  | .int2Array => some .int2
  | .int4Array => some .int4
  | .int8Array => some .int8
  | .textArray => some .text
  | .varcharArray => some .varchar
  | .bpcharArray => some .bpchar
  | .float4Array => some .float4
  | .float8Array => some .float8
  | .dateArray => some .date
  | .timestampArray => some .timestamp
  | .timestamptzArray => some .timestamptz
  | .uuidArray => some .uuid
  | .jsonArray => some .json
  | .jsonbArray => some .jsonb
  | .int2Vector => some .int2
  | .oidVector => some .oid
  | _ => none

def ofName? (name : String) : Option Builtin := all.find? (·.catalogName == name)

end Builtin

inductive ColumnType where
  | builtin (b : Builtin)
  | custom (name : String) (number : UInt32) (schema : String) (member : Option ColumnType)

namespace ColumnType

/-- Along the members, which are types within types. -/
def decideEq : (s t : ColumnType) → Decidable (s = t)
  | .builtin a, .builtin b => decidable_of_iff (a = b) (by simp)
  | .custom n k s none, .custom n' k' s' none =>
    decidable_of_iff (n = n' ∧ k = k' ∧ s = s') (by simp)
  | .custom n k s (some m), .custom n' k' s' (some m') =>
    have := decideEq m m'
    decidable_of_iff (n = n' ∧ k = k' ∧ s = s' ∧ m = m') (by simp)
  | .builtin _, .custom .. => isFalse nofun
  | .custom .., .builtin _ => isFalse nofun
  | .custom _ _ _ none, .custom _ _ _ (some _) => isFalse nofun
  | .custom _ _ _ (some _), .custom _ _ _ none => isFalse nofun

instance : DecidableEq ColumnType := decideEq

def name : ColumnType → String
  | .builtin b => b.catalogName
  | .custom name .. => name

def number : ColumnType → UInt32
  | .builtin b => b.catalogNumber
  | .custom _ number .. => number

def schema : ColumnType → String
  | .builtin _ => "pg_catalog"
  | .custom _ _ schema _ => schema

/-- The type of the items, if the type is one of arrays. -/
def member? : ColumnType → Option ColumnType
  | .builtin b => b.member?.map .builtin
  | .custom _ _ _ member => member

/-- The name, with the schema in front unless it is one that is always searched. -/
def text (t : ColumnType) : String :=
  if t.schema = "public" ∨ t.schema = "pg_catalog" then t.name else t.schema ++ "." ++ t.name

end ColumnType
end Wire
end SqlClause
