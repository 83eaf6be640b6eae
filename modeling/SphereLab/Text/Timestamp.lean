import SphereLab.Decimal.Style

/-!
# Time stamps

A moment is a number of seconds since the beginning of 1970, in universal time.  Its stamp is
the date and the time of day, as in `2024-02-29T00:00:00Z`.
-/

namespace SphereLab

/-- A date: the year, and the month and the day counted from one. -/
structure Date where
  year : Int
  month : Nat
  day : Nat
  deriving DecidableEq, Repr

/-- The date of a day counted from the first of January 1970.  The calendar repeats after
`146097` days, which make four centuries; within them years are taken to begin in March, so
that the leap day is the last of its year. -/
def Date.ofDays (days : Int) : Date :=
  let shifted := days + 719468
  let era := shifted.fdiv 146097
  let dayOfEra := (shifted.fmod 146097).toNat
  let yearOfEra := (dayOfEra - dayOfEra / 1460 + dayOfEra / 36524 - dayOfEra / 146096) / 365
  let dayOfYear := dayOfEra - (365 * yearOfEra + yearOfEra / 4 - yearOfEra / 100)
  let fromMarch := (5 * dayOfYear + 2) / 153
  let month := if fromMarch < 10 then fromMarch + 3 else fromMarch - 9
  let year : Int := yearOfEra + era * 400 + (if month ≤ 2 then 1 else 0)
  ⟨year, month, dayOfYear - (153 * fromMarch + 2) / 5 + 1⟩

/-- A year with at least four digits; one that is not of four digits has a sign. -/
def yearText (year : Int) : String :=
  let digits := fillZeros 4 (naturalText year.natAbs)
  if year < 0 then "-" ++ digits else if 9999 < year then "+" ++ digits else digits

/-- A number with two digits. -/
def pairText (n : Nat) : String := fillZeros 2 (naturalText n)

/-- The date of a moment. -/
def dayText (seconds : Int) : String :=
  let date := Date.ofDays (seconds.fdiv 86400)
  yearText date.year ++ "-" ++ pairText date.month ++ "-" ++ pairText date.day

/-- The time of day of a moment. -/
def timeText (seconds : Int) : String :=
  let time := (seconds.fmod 86400).toNat
  pairText (time / 3600) ++ ":" ++ pairText (time / 60 % 60) ++ ":" ++ pairText (time % 60)

/-- The stamp of a moment in documents. -/
def stampText (seconds : Int) : String := dayText seconds ++ "T" ++ timeText seconds ++ "Z"

/-- The stamp of a moment in generated texts. -/
def clockText (seconds : Int) : String := dayText seconds ++ " " ++ timeText seconds

end SphereLab
