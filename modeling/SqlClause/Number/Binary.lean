/-!
Binary floating-point numbers as bit patterns.  A format has a precision and a width of its
exponent field; a pattern of it decodes to a significand times a power of two, and an exact ratio
rounds to the nearest pattern, a half to the even one.  Everything is arithmetic on naturals, so
each value can be computed in a proof.
-/

namespace SqlClause
namespace Number

/-- A quotient to the nearest natural, a half to the even one. -/
def roundQuotient (n d : Nat) : Nat :=
  if 2 * (n % d) < d ∨ 2 * (n % d) = d ∧ n / d % 2 = 0 then n / d else n / d + 1

/-- A binary interchange format.  The precision counts the leading bit, which is not stored. -/
structure Format where
  precision : Nat
  exponentBits : Nat

/-- What a pattern stands for.  A finite one is `significand * 2 ^ exponent`. -/
inductive Datum where
  | finite (negative : Bool) (significand : Nat) (exponent : Int)
  | infinite (negative : Bool)
  | notANumber
  deriving DecidableEq

namespace Format

def binary32 : Format := ⟨24, 8⟩

def binary64 : Format := ⟨53, 11⟩

/-- The weight of a pattern's fields: the stored significand stays below it. -/
def fieldUnit (f : Format) : Nat := 1 <<< (f.precision - 1)

/-- The exponent of the smallest positive number. -/
def lowest (f : Format) : Int := 3 - (1 <<< (f.exponentBits - 1) : Nat) - f.precision

/-- The pattern of positive infinity.  Those above it are no numbers. -/
def infinity (f : Format) : Nat := (1 <<< f.exponentBits - 1) * f.fieldUnit

def signUnit (f : Format) : Nat := f.fieldUnit <<< f.exponentBits

/-- The pattern that stands for no number: positive, and quiet. -/
def quiet (f : Format) : Nat := f.infinity + f.fieldUnit / 2

def decode (f : Format) (bits : Nat) : Datum :=
  let negative := decide (f.signUnit ≤ bits)
  let magnitude := bits % f.signUnit
  if magnitude > f.infinity then .notANumber
  else if magnitude = f.infinity then .infinite negative
  else if magnitude < f.fieldUnit then .finite negative magnitude f.lowest
  else
    .finite negative (magnitude % f.fieldUnit + f.fieldUnit)
      (f.lowest + (magnitude / f.fieldUnit : Nat) - 1)

/-- The pattern without its sign of the number nearest to `n / d`.  The exponent is chosen so that
the quotient has as many bits as the format holds, or fewer at the lowest one.  A significand
rounded up to the next power of two carries into the exponent field, where it belongs. -/
def nearest (f : Format) (n d : Nat) : Nat :=
  if n = 0 then 0
  else
    let guess : Int := n.log2 - d.log2 - f.precision
    let fits := (n <<< (-guess).toNat) / (d <<< guess.toNat) < 1 <<< f.precision
    let exponent := max f.lowest (if fits then guess else guess + 1)
    let significand := roundQuotient (n <<< (-exponent).toNat) (d <<< exponent.toNat)
    min f.infinity ((exponent - f.lowest).toNat * f.fieldUnit + significand)

/-- The pattern nearest to what another pattern stands for. -/
def encode (f : Format) : Datum → Nat
  | .finite negative m q =>
    f.nearest (m <<< q.toNat) (1 <<< (-q).toNat) + if negative then f.signUnit else 0
  | .infinite negative => f.infinity + if negative then f.signUnit else 0
  | .notANumber => f.quiet

end Format

structure Binary64 where
  bits : UInt64
  deriving DecidableEq

namespace Binary64

def datum (x : Binary64) : Datum := Format.binary64.decode x.bits.toNat

def ofDatum (d : Datum) : Binary64 := ⟨UInt64.ofNat (Format.binary64.encode d)⟩

/-- A number of 32 bits is one of 64 bits too. -/
def ofBinary32 (bits : UInt32) : Binary64 := ofDatum (Format.binary32.decode bits.toNat)

/-- The nearest number of 32 bits, infinity beyond the largest. -/
def toBinary32 (x : Binary64) : UInt32 := UInt32.ofNat (Format.binary32.encode x.datum)

def nan : Binary64 := ofDatum .notANumber

def isNaN (x : Binary64) : Bool := x.datum = .notANumber

def ofRatio (n d : Nat) : Binary64 := ⟨UInt64.ofNat (Format.binary64.nearest n d)⟩

def neg (x : Binary64) : Binary64 := ⟨x.bits ^^^ UInt64.ofNat Format.binary64.signUnit⟩

def isFinite (x : Binary64) : Bool :=
  match x.datum with
  | .finite .. => true
  | _ => false

/-- Both zeros are equal and what is no number equals nothing, itself included. -/
def beq (x y : Binary64) : Bool :=
  match x.datum, y.datum with
  | .notANumber, _ => false
  | _, .notANumber => false
  | .finite _ 0 _, .finite _ 0 _ => true
  | _, _ => x.bits = y.bits

instance : BEq Binary64 := ⟨beq⟩

/-- The size of a finite number as a ratio. -/
def ratio (x : Binary64) : Nat × Nat :=
  match x.datum with
  | .finite _ m q => (m <<< q.toNat, 1 <<< (-q).toNat)
  | _ => (0, 1)

def product (x y : Binary64) : Binary64 :=
  ofRatio (x.ratio.1 * y.ratio.1) (x.ratio.2 * y.ratio.2)

def quotient (x y : Binary64) : Binary64 :=
  ofRatio (x.ratio.1 * y.ratio.2) (x.ratio.2 * y.ratio.1)

end Binary64
end Number
end SqlClause
