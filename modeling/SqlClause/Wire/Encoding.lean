import SqlClause.Value.Basic
import SqlClause.Wire.Postgres

/-!
Values as the type of their column asks.  Single values and lists are left to the library.  What is
decided here is the width of a number, and that null is written nowhere.
-/

namespace SqlClause
namespace Wire

/-! ## Numbers with fewer bits -/

def int16? (n : Int64) : Option Int16 :=
  if Int16.minValue.toInt ≤ n.toInt ∧ n.toInt ≤ Int16.maxValue.toInt then some n.toInt16 else none

def int32? (n : Int64) : Option Int32 :=
  if Int32.minValue.toInt ≤ n.toInt ∧ n.toInt ≤ Int32.maxValue.toInt then some n.toInt32 else none

def int64? (n : UInt64) : Option Int64 :=
  if n.toNat < UInt64.size / 2 then some n.toInt64 else none

def rangeError (n : Int) (target : String) : Failure :=
  .clause (.valueRange (toString n) target)

/-! ## Values -/

namespace Library

variable {T : Type} [DecidableEq T] (lib : Library T)

/-- The range of a shorter type is checked, and all other types are given 64 bits. -/
def encodeInt (n : Int64) : Writer T := fun type =>
  if type = lib.int2 then
    match int16? n with
    | some short => lib.scalar (.int16 short) type
    | none => .error (rangeError n.toInt "INT2")
  else if type = lib.int4 then
    match int32? n with
    | some short => lib.scalar (.int32 short) type
    | none => .error (rangeError n.toInt "INT4")
  else lib.scalar (.int64 n) type

/-- The range of an integer without a sign is checked before its type. -/
def encodeUInt (n : UInt64) : Writer T := fun type =>
  match int64? n with
  | some signed => lib.encodeInt signed type
  | none => .error (rangeError n.toNat "INT8")

/-- A short fraction is rounded, and is infinite if it is too large. -/
def encodeFloat (x : Number.Binary64) : Writer T := fun type =>
  if type = lib.float4 then lib.scalar (.float32 x.toBinary32) type
  else lib.scalar (.float64 x) type

mutual

/-- A value is said to accept every type, so no check of its own stands in front. -/
def encode : Value → Writer T
  | .null => fun _ => .ok none
  | .bool b => lib.scalar (.bool b)
  | .int n => lib.encodeInt n
  | .uint n => lib.encodeUInt n
  | .float x => lib.encodeFloat x
  | .text s => lib.scalar (.text s)
  | .uuid u => lib.scalar (.uuid u)
  | .timestamp t => lib.scalar (.timestamp t)
  | .date d => lib.scalar (.date d)
  | .json j => lib.scalar (.json j)
  | .list items => lib.list (writers items)

def writers : List Value → List (Writer T)
  | [] => []
  | x :: rest => encode x :: writers rest

end

end Library

def encode (v : Value) (type : ColumnType) : Except Failure Encoded := postgres.encode v type

end Wire
end SqlClause
