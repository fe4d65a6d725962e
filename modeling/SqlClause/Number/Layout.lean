import SqlClause.Number.Shortest
import SqlClause.Text.Padded

/-!
How the digits of a number are laid out: with a decimal point in place, or as a power of ten.
-/

namespace SqlClause
namespace Number

structure Layout where
  tie : Tie
  /-- The exponents of the first digit at which the point stands in its place. -/
  positional : Int → Bool
  /-- Whether whole numbers end in `.0`. -/
  keepsPoint : Bool
  /-- Whether an exponent that is not negative has a sign. -/
  plusSign : Bool

namespace Decimal

/-- The exponent of the first digit. -/
def magnitude (d : Decimal) : Int := d.exponent + (Nat.toDigits 10 d.digits).length - 1

/-- The point stands in its place; a whole number has none unless asked. -/
def positional (d : Decimal) (keepsPoint : Bool) : String :=
  let ds := Nat.toDigits 10 d.digits
  if 0 ≤ d.exponent then
    String.ofList ds ++ Text.zeros d.exponent.toNat ++ if keepsPoint then ".0" else ""
  else if 0 ≤ d.magnitude then
    let whole := (d.magnitude + 1).toNat
    String.ofList (ds.take whole) ++ "." ++ String.ofList (ds.drop whole)
  else
    "0." ++ Text.zeros (-d.magnitude - 1).toNat ++ String.ofList ds

/-- One digit stands before the point and the power of ten follows. -/
def scientific (d : Decimal) (plusSign : Bool) : String :=
  let ds := Nat.toDigits 10 d.digits
  let fraction := if ds.length ≤ 1 then "" else "." ++ String.ofList (ds.drop 1)
  let sign := if plusSign && decide (0 ≤ d.magnitude) then "+" else ""
  String.ofList (ds.take 1) ++ fraction ++ "e" ++ sign ++ toString d.magnitude

end Decimal

/-- A finite number as `l` lays it out.  Zero has a sign as well. -/
def Layout.render (l : Layout) (x : Binary64) : String :=
  match x.datum with
  | .notANumber => "NaN"
  | .infinite negative => if negative then "-inf" else "inf"
  | .finite negative m q =>
    let sign := if negative then "-" else ""
    let d := if m = 0 then ⟨0, 0⟩ else shortest .binary64 l.tie m q
    sign ++ if l.positional d.magnitude then d.positional l.keepsPoint else d.scientific l.plusSign

end Number
end SqlClause
