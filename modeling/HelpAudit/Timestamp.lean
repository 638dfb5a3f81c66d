import HelpAudit.Text.Fixed

/-! Moments in universal time, and their date. -/

namespace HelpAudit

/-- A moment: seconds since the beginning of 1970, and nanoseconds below one second. -/
structure Timestamp where
  seconds : Nat
  nanoseconds : Nat := 0
  deriving DecidableEq

/-- The date of a day, counted from the first of January 1970. The years are taken from March on, so
    that the day of a leap year is the last one, in eras of 400 years. -/
def dateOfDay (day : Nat) : Nat × Nat × Nat :=
  let shifted := day + 719468
  let era := shifted / 146097
  let dayOfEra := shifted % 146097
  let yearOfEra := (dayOfEra - dayOfEra / 1460 + dayOfEra / 36524 - dayOfEra / 146096) / 365
  let dayOfYear := dayOfEra - (365 * yearOfEra + yearOfEra / 4 - yearOfEra / 100)
  let month := (5 * dayOfYear + 2) / 153
  let dayOfMonth := dayOfYear - (153 * month + 2) / 5 + 1
  let year := yearOfEra + era * 400
  if month < 10 then (year, month + 3, dayOfMonth) else (year + 1, month - 9, dayOfMonth)

namespace Timestamp

/-- The fraction of a second, in thousandths, millionths or billionths as needed. -/
def fraction (t : Timestamp) : String :=
  let n := t.nanoseconds
  if n = 0 then ""
  else if n % 1000000 = 0 then "." ++ Text.padded 3 (n / 1000000)
  else if n % 1000 = 0 then "." ++ Text.padded 6 (n / 1000)
  else "." ++ Text.padded 9 n

/-- Date and time of day, with a mark for universal time behind them. -/
def display (t : Timestamp) (zone : String) : String :=
  let (year, month, day) := dateOfDay (t.seconds / 86400)
  let time := t.seconds % 86400
  Text.padded 4 year ++ "-" ++ Text.padded 2 month ++ "-" ++ Text.padded 2 day ++ "T" ++
    Text.padded 2 (time / 3600) ++ ":" ++ Text.padded 2 (time / 60 % 60) ++ ":" ++
    Text.padded 2 (time % 60) ++ t.fraction ++ zone

end Timestamp

end HelpAudit
