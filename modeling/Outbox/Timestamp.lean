import Outbox.Clock

/-! # Timestamps

The text of an instant of a clock that counts from the beginning of 1970: date, `T`, time of day,
`Z`. A year is counted from its first of March, so that the leap day comes last, and years come in
eras of four hundred, all of the same length. Fractions of a second are written in groups of three
digits, as many groups as it takes. -/
namespace Outbox
set_option autoImplicit false

structure CivilDate where
  year : Nat
  month : Nat
  day : Nat
  deriving DecidableEq, Repr

namespace CivilDate

def daysPerEra : Nat := 146097

/-- The days from the first of March of the year zero to the beginning of 1970. -/
def daysBefore1970 : Nat := 719468

/-- The year of a day of an era, leap days set aside. -/
def yearOfEra (day : Nat) : Nat := (day - day / 1460 + day / 36524 - day / 146096) / 365

def ofDays (days : Nat) : CivilDate :=
  let era := (days + daysBefore1970) / daysPerEra
  let dayOfEra := (days + daysBefore1970) % daysPerEra
  let yoe := yearOfEra dayOfEra
  let dayOfYear := dayOfEra - (365 * yoe + yoe / 4 - yoe / 100)
  -- five months from March on have 153 days, and so have the next five
  let monthFromMarch := (5 * dayOfYear + 2) / 153
  let month := if monthFromMarch < 10 then monthFromMarch + 3 else monthFromMarch - 9
  { year := 400 * era + yoe + if month ≤ 2 then 1 else 0
    month
    day := dayOfYear - (153 * monthFromMarch + 2) / 5 + 1 }

example : ofDays 0 = ⟨1970, 1, 1⟩ := by decide
example : ofDays 11016 = ⟨2000, 2, 29⟩ := by decide
example : ofDays 20088 = ⟨2024, 12, 31⟩ := by decide
example : ofDays 47541 = ⟨2100, 3, 1⟩ := by decide

end CivilDate

namespace Timestamp

/-- Zeros in front make up for missing digits. -/
def padded (width n : Nat) : String :=
  let digits := Nat.toDigits 10 n
  String.ofList (List.replicate (width - digits.length) '0' ++ digits)

/-- A year of more than four digits has a sign. -/
def yearText (y : Nat) : String := if y < 10000 then padded 4 y else "+" ++ toString y

def fractionText (nanos : Nat) : String :=
  if nanos = 0 then ""
  else if nanos % nanosPerMilli = 0 then "." ++ padded 3 (nanos / nanosPerMilli)
  else if nanos % 1000 = 0 then "." ++ padded 6 (nanos / 1000)
  else "." ++ padded 9 nanos

def text (t : Instant) : String :=
  let seconds := t / nanosPerSecond
  let date := CivilDate.ofDays (seconds / 86400)
  let second := seconds % 86400
  yearText date.year ++ "-" ++ padded 2 date.month ++ "-" ++ padded 2 date.day ++ "T" ++
    padded 2 (second / 3600) ++ ":" ++ padded 2 (second / 60 % 60) ++ ":" ++
    padded 2 (second % 60) ++ fractionText (t % nanosPerSecond) ++ "Z"

end Timestamp

end Outbox
