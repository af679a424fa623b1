/-!
# Points in time

* `Clock.date` — the year, month and day of a day counted from the first of January 1970.
* `Clock.text` — a point in time as the journal writes it.
-/

namespace Vintage.Clock

/-- The year, month and day of a day counted from the first of January 1970. Years are taken to
start in March, so that the day of a leap year comes last. -/
def date (day : Int) : Int × Int × Int :=
  let shifted := day + 719468
  let era := Int.fdiv shifted 146097
  let dayOfEra := shifted - era * 146097
  let yearOfEra :=
    (dayOfEra - dayOfEra / 1460 + dayOfEra / 36524 - dayOfEra / 146096) / 365
  let dayOfYear := dayOfEra - (365 * yearOfEra + yearOfEra / 4 - yearOfEra / 100)
  let month := (5 * dayOfYear + 2) / 153
  let monthOfYear := if month < 10 then month + 3 else month - 9
  let year := yearOfEra + era * 400 + (if monthOfYear ≤ 2 then 1 else 0)
  (year, monthOfYear, dayOfYear - (153 * month + 2) / 5 + 1)

/-- A number with zeros before it up to a width. -/
def padded (width : Nat) (n : Int) : String :=
  let digits := toString n
  String.ofList (List.replicate (width - digits.length) '0') ++ digits

/-- The time so many milliseconds after the start of 1970, at the zero meridian. -/
def text (milliseconds : Int) : String :=
  let seconds := Int.fdiv milliseconds 1000
  let day := Int.fdiv seconds 86400
  let second := seconds - day * 86400
  let (year, month, dayOfMonth) := date day
  padded 4 year ++ "-" ++ padded 2 month ++ "-" ++ padded 2 dayOfMonth ++ " "
    ++ padded 2 (second / 3600) ++ ":" ++ padded 2 (second / 60 % 60) ++ ":"
    ++ padded 2 (second % 60) ++ "." ++ padded 3 (milliseconds - seconds * 1000)

end Vintage.Clock
