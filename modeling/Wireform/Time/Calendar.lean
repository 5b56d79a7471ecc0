import Wireform.Text.Digits
import Wireform.Time.Duration

/-!
# The text of an instant

An instant is a signed count of nanoseconds since the start of 1970 in universal time.  Its text
is the date of the proleptic Gregorian calendar, the time of day and the word `UTC`.

* Days are numbered from the first of March of year 0, so that a leap day ends its year; an era is
  400 years of 146097 days.
* A year of 0 to 9999 has four digits; any other year has a sign and at least four digits.
* The seconds carry three, six or nine decimals, whichever is the least that is exact, and none at
  all for a whole second.
-/
namespace Wireform.Time

/-- A date of the proleptic Gregorian calendar. -/
structure Date where
  year : Int
  month : Nat
  day : Nat
  deriving DecidableEq, Repr

/-- The date that lies `days` days after the first of January 1970. -/
def Date.ofDays (days : Int) : Date :=
  let shifted := days + 719468
  let era := shifted.fdiv 146097
  let dayOfEra := (shifted - era * 146097).toNat
  let yearOfEra := (dayOfEra - dayOfEra / 1460 + dayOfEra / 36524 - dayOfEra / 146096) / 365
  let dayOfYear := dayOfEra - (365 * yearOfEra + yearOfEra / 4 - yearOfEra / 100)
  let monthFromMarch := (5 * dayOfYear + 2) / 153
  let day := dayOfYear - (153 * monthFromMarch + 2) / 5 + 1
  let month := if monthFromMarch < 10 then monthFromMarch + 3 else monthFromMarch - 9
  let year := (yearOfEra : Int) + era * 400
  ⟨if month ≤ 2 then year + 1 else year, month, day⟩

/-- A year: four digits from 0 to 9999, else a sign and at least four digits. -/
def yearText (year : Int) : String :=
  if 0 ≤ year ∧ year ≤ 9999 then Text.padded 4 year.toNat
  else if year < 0 then "-" ++ Text.padded 4 year.natAbs
  else "+" ++ Text.padded 4 year.toNat

/-- A date as year, month and day. -/
def Date.text (date : Date) : String :=
  yearText date.year ++ "-" ++ Text.padded 2 date.month ++ "-" ++ Text.padded 2 date.day

/-- The decimals of a second, in groups of three. -/
def subsecondText (nanos : Nat) : String :=
  if nanos = 0 then ""
  else if nanos % 1000000 = 0 then "." ++ Text.padded 3 (nanos / 1000000)
  else if nanos % 1000 = 0 then "." ++ Text.padded 6 (nanos / 1000)
  else "." ++ Text.padded 9 nanos

/-- The text of the instant `nanos` nanoseconds after the start of 1970. -/
def instantText (nanos : Int) : String :=
  let seconds := nanos.fdiv nanosPerSecond
  let subsecond := (nanos - seconds * nanosPerSecond).toNat
  let days := seconds.fdiv 86400
  let ofDay := (seconds - days * 86400).toNat
  (Date.ofDays days).text ++ " " ++ Text.padded 2 (ofDay / 3600) ++ ":"
    ++ Text.padded 2 (ofDay / 60 % 60) ++ ":" ++ Text.padded 2 (ofDay % 60)
    ++ subsecondText subsecond ++ " UTC"

end Wireform.Time
