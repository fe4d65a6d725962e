import SqlClause.Text.Padded

/-!
Days of the Gregorian calendar, carried on without end in both directions.  A date is a count of
days, so dates need no check and their arithmetic is that of the integers; year, month and day are
a view of it.  Years run from March here, so that the day added in a leap year is the last one, and
come in eras of 400, after which the calendar repeats.
-/

namespace SqlClause
namespace Calendar

/-- The number of days in 400 years. -/
def eraDays : Int := 146097

/-- Counted from 1 January 1970. -/
structure Date where
  day : Int
  deriving DecidableEq

namespace Date

/-- Days from 1 March of the year 0 to 1 January 1970. -/
def epochOffset : Int := 719468

def ofCivil (year month day : Int) : Date :=
  let marchYear := if month ≤ 2 then year - 1 else year
  let marchMonth := if month ≤ 2 then month + 9 else month - 3
  let yearOfEra := marchYear % 400
  let dayOfYear := (153 * marchMonth + 2) / 5 + day - 1
  let dayOfEra := yearOfEra * 365 + yearOfEra / 4 - yearOfEra / 100 + dayOfYear
  ⟨marchYear / 400 * eraDays + dayOfEra - epochOffset⟩

def civil (d : Date) : Int × Int × Int :=
  let shifted := d.day + epochOffset
  let dayOfEra := shifted % eraDays
  let yearOfEra := (dayOfEra - dayOfEra / 1460 + dayOfEra / 36524 - dayOfEra / 146096) / 365
  let dayOfYear := dayOfEra - (365 * yearOfEra + yearOfEra / 4 - yearOfEra / 100)
  let marchMonth := (5 * dayOfYear + 2) / 153
  let month := if marchMonth < 10 then marchMonth + 3 else marchMonth - 9
  let marchYear := yearOfEra + shifted / eraDays * 400
  (if month ≤ 2 then marchYear + 1 else marchYear, month,
    dayOfYear - (153 * marchMonth + 2) / 5 + 1)

/-- Four digits; a year that needs more, or lies before the year 0, has a sign. -/
def yearText (year : Int) : String :=
  if year < 0 then "-" ++ Text.digits 10 4 year.natAbs
  else if year ≤ 9999 then Text.digits 10 4 year.toNat
  else "+" ++ Text.digits 10 4 year.toNat

/-- Year, month and day with hyphens between them. -/
def text (d : Date) : String :=
  let (year, month, day) := d.civil
  yearText year ++ "-" ++ Text.digits 10 2 month.toNat ++ "-" ++ Text.digits 10 2 day.toNat

/-- Days since 1 January 2000. -/
def sinceMillennium (d : Date) : Int := d.day - 10957

end Date
end Calendar
end SqlClause
