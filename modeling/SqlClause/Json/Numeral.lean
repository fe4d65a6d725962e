import SqlClause.Json.Basic

/-!
Numerals of JSON texts.  A numeral without point and exponent that fits 64 bits is an integer.  Any
other one is a fraction: its digits go into a significand of 64 bits as long as they fit, and the
power of ten is applied to the nearest fraction of that significand with one more rounding, so the
result may differ in the last bit from the nearest fraction of the numeral itself.
-/

namespace SqlClause
namespace Json
namespace Numeral

/-- A significand, the power of ten that goes with it, and whether digits have been left out. -/
structure Significand where
  value : Nat
  exponent : Int
  full : Bool

def Significand.zero : Significand := ⟨0, 0, false⟩

/-- Takes a digit if the significand still fits 64 bits.  One that does not fit closes it. -/
def Significand.push (s : Significand) (digit : Nat) : Significand :=
  let value := s.value * 10 + digit
  if s.full || decide (UInt64.size ≤ value) then { s with full := true } else { s with value }

/-- A digit before the point that is left out makes the rest ten times as large. -/
def Significand.pushWhole (s : Significand) (digit : Nat) : Significand :=
  let next := s.push digit
  if next.full then { next with exponent := s.exponent + 1 } else next

/-- A digit after the point that is taken makes the rest ten times as small. -/
def Significand.pushFraction (s : Significand) (digit : Nat) : Significand :=
  let next := s.push digit
  if next.full then next else { next with exponent := s.exponent - 1 }

/-- The largest power of ten that is applied in one step. -/
def largestPower : Nat := 308

def powerOfTen (k : Nat) : Number.Binary64 := .ofRatio (Nat.pow 10 k) 1

/-- Applies a power of ten.  A number that would be too large is refused; one too small becomes
zero. -/
def scale? (x : Number.Binary64) (exponent : Int) : Option Number.Binary64 :=
  if exponent.natAbs ≤ largestPower then
    if 0 ≤ exponent then
      let y := x.product (powerOfTen exponent.toNat)
      if y.isFinite then some y else none
    else some (x.quotient (powerOfTen exponent.natAbs))
  else if x.bits = 0 then some x
  else if 0 ≤ exponent then none
  else scale? (x.quotient (powerOfTen largestPower)) (exponent + largestPower)
termination_by exponent.natAbs
decreasing_by simp only [largestPower] at *; omega

def digits : List Char → List Nat × List Char
  | [] => ([], [])
  | c :: rest =>
    if c.isDigit then
      let (ds, after) := digits rest
      ((c.toNat - 48) :: ds, after)
    else ([], c :: rest)

def exponent? (cs : List Char) : Option (Int × List Char) :=
  let (negative, unsigned) :=
    match cs with
    | '+' :: rest => (false, rest)
    | '-' :: rest => (true, rest)
    | _ => (false, cs)
  match digits unsigned with
  | ([], _) => none
  | (ds, rest) =>
    let n : Int := (ds.foldl (fun n d => 10 * n + d) 0 : Nat)
    some (if negative then -n else n, rest)

/-- An integer of 64 bits where that is possible.  The zero with a sign is none. -/
def integer? (negative : Bool) (s : Significand) : Option Int :=
  if s.full then none
  else if !negative then some s.value
  else if s.value = 0 ∨ UInt64.size / 2 < s.value then none
  else some (-s.value)

def fraction? (negative : Bool) (s : Significand) (exponent : Int) : Option Number := do
  let x ← scale? (.ofRatio s.value 1) (s.exponent + exponent)
  some (.fraction (if negative then x.neg else x))

def finish? (negative : Bool) (whole : Significand) : List Char → Option (Number × List Char)
  | '.' :: rest => do
    let (ds, after) := digits rest
    if ds.isEmpty then none
    let s := ds.foldl Significand.pushFraction { whole with full := false }
    match after with
    | 'e' :: power | 'E' :: power =>
      let (e, rest) ← exponent? power
      some (← fraction? negative s e, rest)
    | _ => some (← fraction? negative s 0, after)
  | 'e' :: power | 'E' :: power => do
    let (e, rest) ← exponent? power
    some (← fraction? negative whole e, rest)
  | rest =>
    match integer? negative whole with
    | some n => some (.integer n, rest)
    | none => do some (← fraction? negative whole 0, rest)

/-- Reads a numeral off the front.  No zero stands before other digits. -/
def read? (cs : List Char) : Option (Number × List Char) :=
  let (negative, unsigned) :=
    match cs with
    | '-' :: rest => (true, rest)
    | _ => (false, cs)
  match digits unsigned with
  | ([], _) => none
  | (0 :: _ :: _, _) => none
  | (ds, rest) => finish? negative (ds.foldl Significand.pushWhole .zero) rest

end Numeral
end Json
end SqlClause
