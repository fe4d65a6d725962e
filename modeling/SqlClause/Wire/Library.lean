import SqlClause.Calendar.Timestamp
import SqlClause.ClauseError
import SqlClause.Json.Basic
import SqlClause.Number.Binary
import SqlClause.Uuid

/-!
What is used of a library that writes values for a database.

The library has types of columns of its own, and writes single values and lists of anything that can
be written.  It is a parameter of all that follows: nothing is known of its types and of its bytes
but what a theorem asks for.
-/

namespace SqlClause
namespace Wire

inductive Kind where
  | bool
  | int16
  | int32
  | int64
  | float32
  | float64
  | text
  | uuid
  | timestamp
  | date
  | json
  deriving DecidableEq

def Kind.name : Kind → String
  | .bool => "bool"
  | .int16 => "i16"
  | .int32 => "i32"
  | .int64 => "i64"
  | .float32 => "f32"
  | .float64 => "f64"
  | .text => "alloc::string::String"
  | .uuid => "uuid::Uuid"
  | .timestamp => "chrono::datetime::DateTime<chrono::offset::utc::Utc>"
  | .date => "chrono::naive::date::NaiveDate"
  | .json => "serde_json::value::Value"

/-- Single values, as the library takes them. -/
inductive Scalar where
  | bool (b : Bool)
  | int16 (n : Int16)
  | int32 (n : Int32)
  | int64 (n : Int64)
  | float32 (bits : UInt32)
  | float64 (x : Number.Binary64)
  | text (s : String)
  | uuid (u : Uuid)
  | timestamp (t : Calendar.Timestamp)
  | date (d : Calendar.Date)
  | json (j : Json)

def Scalar.kind : Scalar → Kind
  | .bool _ => .bool
  | .int16 _ => .int16
  | .int32 _ => .int32
  | .int64 _ => .int64
  | .float32 _ => .float32
  | .float64 _ => .float64
  | .text _ => .text
  | .uuid _ => .uuid
  | .timestamp _ => .timestamp
  | .date _ => .date
  | .json _ => .json

inductive Failure where
  | clause (e : ClauseError)
  /-- The kind of value is not written for the type of this name. -/
  | wrongType (kind : Kind) (type : String)
  | other (message : String)
  /-- This is not reported: it ends the run. -/
  | abort (message : String)

namespace Failure

/-- A list for a type that is not one of arrays. -/
@[match_pattern]
def notAnArray : Failure := .abort "expected array type"

def tooLarge : Failure := .other "value too large to transmit"

def message : Failure → String
  | .clause e => e.message
  | .wrongType kind type =>
    "cannot convert between the Rust type `" ++ kind.name ++ "` and the Postgres type `" ++ type
      ++ "`"
  | .other message => message
  | .abort message => message

def aborts : Failure → Bool
  | .abort _ => true
  | _ => false

end Failure

/-- The bytes of a value, or none at all for null. -/
abbrev Encoded := Option (List UInt8)

/-- What a value is written as, for each type of a column. -/
abbrev Writer (T : Type) := T → Except Failure Encoded

structure Library (T : Type) where
  int2 : T
  int4 : T
  int8 : T
  float4 : T
  int2Vector : T
  oidVector : T
  number : T → UInt32
  text : T → String
  /-- The type of the items, if the type is one of arrays. -/
  member? : T → Option T
  accepts : Kind → T → Bool
  /-- Checks whether the type accepts the kind before anything is written. -/
  scalar : Scalar → Writer T
  /-- Takes each item as what writes it, and does not check the type. -/
  list : List (Writer T) → Writer T

end Wire
end SqlClause
