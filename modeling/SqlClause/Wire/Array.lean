import SqlClause.Wire.Bytes
import SqlClause.Wire.Library

/-!
The binary form of arrays.  There is one dimension, and each item has its length in front.
-/

namespace SqlClause
namespace Wire

def lengthLimit : Nat := UInt32.size / 2

/-- What stands in front of the items: the number of dimensions, whether an item is null, the type of
the items, and the length and the lower bound of the dimension. -/
def arrayHeader (hasNull : Bool) (member : UInt32) (length lower : Nat) : List UInt8 :=
  bigEndian 4 1 ++ bigEndian 4 (if hasNull then 1 else 0) ++ bigEndian 4 member.toNat
    ++ bigEndian 4 length ++ bigEndian 4 lower

/-- An item with its length in front.  The length of null is -1. -/
def writeItem : Encoded → Except Failure (List UInt8)
  | none => .ok (bigEndianInt 4 (-1))
  | some bytes =>
    if bytes.length < lengthLimit then .ok (bigEndian 4 bytes.length ++ bytes)
    else .error .tooLarge

/-- The items one behind the other, and whether one of them is null.  The first one that cannot be
written decides. -/
def writeItems : List (Except Failure Encoded) → Except Failure (Bool × List UInt8)
  | [] => .ok (false, [])
  | item :: rest => do
    let encoded ← item
    let bytes ← writeItem encoded
    let (hasNull, others) ← writeItems rest
    return (encoded.isNone || hasNull, bytes ++ others)

def writeArray (member : UInt32) (lower : Nat) (items : List (Except Failure Encoded)) :
    Except Failure Encoded :=
  if items.length < lengthLimit then do
    let (hasNull, bytes) ← writeItems items
    return some (arrayHeader hasNull member items.length lower ++ bytes)
  else .error .tooLarge

end Wire
end SqlClause
