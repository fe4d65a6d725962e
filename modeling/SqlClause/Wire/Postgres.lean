import SqlClause.Json.Printer
import SqlClause.Wire.Array
import SqlClause.Wire.ColumnType

/-!
The library that the program is run with.  What is proved of encoding is proved of any library that
keeps the laws that are asked for, and this one is shown to keep them.
-/

namespace SqlClause
namespace Wire

/-- The built-in types that accept a kind. -/
def Kind.builtins : Kind → List Builtin
  | .bool => [.bool]
  | .int16 => [.int2]
  | .int32 => [.int4]
  | .int64 => [.int8]
  | .float32 => [.float4]
  | .float64 => [.float8]
  | .text => [.varchar, .text, .bpchar, .name, .unknown]
  | .uuid => [.uuid]
  | .timestamp => [.timestamptz]
  | .date => [.date]
  | .json => [.json, .jsonb]

namespace ColumnType

/-- Labelled paths and the searches in them.  Their types are no built-in ones and are known by their
names. -/
def isLabelled (type : ColumnType) : Bool := type.name ∈ ["ltree", "lquery", "ltxtquery"]

def accepts (kind : Kind) (type : ColumnType) : Bool :=
  match type with
  | .builtin b => b ∈ kind.builtins
  | .custom name .. => kind = .text && (name = "citext" || type.isLabelled)

/-- Vectors count from zero. -/
def lowerBound (type : ColumnType) : Nat :=
  if type = .builtin .int2Vector ∨ type = .builtin .oidVector then 0 else 1

end ColumnType

/-- Labelled paths and the binary form of documents have a version number in front. -/
def Scalar.bytes (s : Scalar) (type : ColumnType) : List UInt8 :=
  match s with
  | .bool b => [if b then 1 else 0]
  | .int16 n => bigEndianInt 2 n.toInt
  | .int32 n => bigEndianInt 4 n.toInt
  | .int64 n => bigEndianInt 8 n.toInt
  | .float32 bits => bigEndian 4 bits.toNat
  | .float64 x => bigEndian 8 x.bits.toNat
  | .text s => if type.isLabelled then 1 :: utf8 s else utf8 s
  | .uuid u => bigEndian 16 u.value.toNat
  | .timestamp t => bigEndianInt 8 t.microsecondsSinceMillennium
  | .date d => bigEndianInt 4 d.sinceMillennium
  | .json j => if type = .builtin .jsonb then 1 :: utf8 j.text else utf8 j.text

def postgres : Library ColumnType where
  int2 := .builtin .int2
  int4 := .builtin .int4
  int8 := .builtin .int8
  float4 := .builtin .float4
  int2Vector := .builtin .int2Vector
  oidVector := .builtin .oidVector
  number := ColumnType.number
  text := ColumnType.text
  member? := ColumnType.member?
  accepts := ColumnType.accepts
  scalar s type :=
    if type.accepts s.kind then .ok (some (s.bytes type))
    else .error (.wrongType s.kind type.text)
  list items type :=
    match type.member? with
    | none => .error .notAnArray
    | some member => writeArray member.number type.lowerBound (items.map fun write => write member)

end Wire
end SqlClause
