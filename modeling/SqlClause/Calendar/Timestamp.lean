import SqlClause.Calendar.Date

/-!
Moments of universal time, to the nanosecond.  A leap second is the second before it with a count of
nanoseconds from a thousand million on, and is written as second 60.
-/

namespace SqlClause
namespace Calendar

/-- Whole seconds since the start of 1970, and the nanoseconds after them. -/
structure Timestamp where
  seconds : Int
  nanoseconds : Nat
  deriving DecidableEq

namespace Timestamp

def secondsPerDay : Int := 86400

def date (t : Timestamp) : Date := ⟨t.seconds / secondsPerDay⟩

def secondOfDay (t : Timestamp) : Nat := (t.seconds % secondsPerDay).toNat

/-- The fraction of a second in thousandths, millionths or thousand-millionths, whichever is the
first to lose nothing, and nothing at all for a whole second. -/
def fractionText (nanoseconds : Nat) : String :=
  if nanoseconds = 0 then ""
  else if nanoseconds % 1000000 = 0 then "." ++ Text.digits 10 3 (nanoseconds / 1000000)
  else if nanoseconds % 1000 = 0 then "." ++ Text.digits 10 6 (nanoseconds / 1000)
  else "." ++ Text.digits 10 9 nanoseconds

/-- Date and time of day without a zone. -/
def localText (t : Timestamp) : String :=
  let leap := t.nanoseconds / 1000000000
  let second := t.secondOfDay % 60 + leap
  t.date.text ++ "T" ++ Text.digits 10 2 (t.secondOfDay / 3600) ++ ":"
    ++ Text.digits 10 2 (t.secondOfDay / 60 % 60) ++ ":" ++ Text.digits 10 2 second
    ++ fractionText (t.nanoseconds % 1000000000)

/-- With the offset of universal time. -/
def offsetText (t : Timestamp) : String := t.localText ++ "+00:00"

/-- With the letter of universal time. -/
def zuluText (t : Timestamp) : String := t.localText ++ "Z"

/-- Microseconds since the start of 2000.  What is left of one is dropped, so before 2000 the count
goes up to the next one. -/
def microsecondsSinceMillennium (t : Timestamp) : Int :=
  ((t.seconds - 946684800) * 1000000000 + t.nanoseconds).tdiv 1000

end Timestamp
end Calendar
end SqlClause
