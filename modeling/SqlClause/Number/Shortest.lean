import SqlClause.Number.Binary

/-!
The fewest decimal digits that read back as a binary number.  The reals that round to a number form
an interval around it.  On a grid of multiples of a power of ten only the two neighbours of the
number matter: if any point of the grid lies in the interval, one of them does.  The coarsest grid
with such a point gives the digits, and the nearer neighbour is taken.
-/

namespace SqlClause
namespace Number

/-- `digits * 10 ^ exponent`. -/
structure Decimal where
  digits : Nat
  exponent : Int
  deriving DecidableEq

inductive Tie where
  | up
  | even

/-- A positive number and the ends of its interval, all counted in `2 ^ unit`. -/
structure Interval where
  low : Nat
  value : Nat
  high : Nat
  closed : Bool
  unit : Int

namespace Interval

/-- The interval reaches half way to the next numbers.  Below a power of two these are closer, but
not below the lowest one.  A half goes to the even neighbour, so an even significand owns its
ends. -/
def around (f : Format) (m : Nat) (q : Int) : Interval where
  low := if m = f.fieldUnit ∧ f.lowest < q then 4 * m - 1 else 4 * m - 2
  value := 4 * m
  high := 4 * m + 2
  closed := m % 2 = 0
  unit := q - 2

/-- The neighbour of the value among the multiples of `10 ^ k` that lies in the interval, the
nearer one if both do. -/
def pick? (i : Interval) (tie : Tie) (k : Int) : Option Nat :=
  let decimal := Nat.pow 10 k.toNat <<< (-i.unit).toNat
  let binary := Nat.pow 10 (-k).toNat <<< i.unit.toNat
  let below := i.value * binary / decimal
  let rest := i.value * binary % decimal
  let reachesDown := i.low * binary < below * decimal ∨ i.closed ∧ i.low * binary = below * decimal
  let reachesUp :=
    (below + 1) * decimal < i.high * binary ∨ i.closed ∧ (below + 1) * decimal = i.high * binary
  if reachesDown then
    if reachesUp then
      if 2 * rest < decimal then some below
      else if 2 * rest = decimal then
        match tie with
        | .up => some (below + 1)
        | .even => some (below + below % 2)
      else some (below + 1)
    else some below
  else if reachesUp then some (below + 1)
  else none

/-- The first grid with a point in the interval, from `10 ^ k` downwards. -/
def search (i : Interval) (tie : Tie) : Nat → Int → Decimal
  | 0, k =>
    ⟨i.value * (Nat.pow 10 (-k).toNat <<< i.unit.toNat)
      / (Nat.pow 10 k.toNat <<< (-i.unit).toNat), k⟩
  | steps + 1, k =>
    match i.pick? tie k with
    | some d => ⟨d, k⟩
    | none => i.search tie steps (k - 1)

end Interval

/-- The fewest digits that round to `m * 2 ^ q`, which is not zero.  The logarithm of two gives a
power of ten above the number, at most two grids above its first digit; seventeen digits are enough
for 53 bits. -/
def shortest (f : Format) (tie : Tie) (m : Nat) (q : Int) : Decimal :=
  (Interval.around f m q).search tie 20 ((q + m.log2 + 1) * 30103 / 100000 + 1)

end Number
end SqlClause
