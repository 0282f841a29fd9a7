import ConstPromotion.Text.Decimal

/-!
# Timestamps

A moment is a number of seconds and nanoseconds since the start of 1970 in coordinated universal
time, and is written as a date and a time of day. Dates follow the Gregorian calendar, which repeats
itself every four hundred years.
-/

namespace ConstPromotion.Timestamp

/-- A day of the calendar. -/
structure Date where
  year : Nat
  month : Nat
  day : Nat
deriving DecidableEq

/-- How many days four hundred years have. -/
def daysOfEra : Nat := 146097

/-- How many days lie between the start of March in the year 0 and the start of 1970. -/
def daysBeforeEpoch : Nat := 719468

/-- The date a number of days after the start of 1970. Years are counted from March on, so that a
leap day ends its year, and the months from March on have 31 and 30 days by turns of five. -/
def dateOf (days : Nat) : Date :=
  let d := days + daysBeforeEpoch
  let ofEra := d % daysOfEra
  let year := (ofEra - ofEra / 1460 + ofEra / 36524 - ofEra / 146096) / 365
  let ofYear := ofEra - (365 * year + year / 4 - year / 100)
  let month := (5 * ofYear + 2) / 153
  let day := ofYear - (153 * month + 2) / 5 + 1
  let late := month ≥ 10
  { year := d / daysOfEra * 400 + year + if late then 1 else 0
    month := if late then month - 9 else month + 3
    day }

example : dateOf 0 = ⟨1970, 1, 1⟩ := by decide
example : dateOf 11016 = ⟨2000, 2, 29⟩ := by decide
example : dateOf 20088 = ⟨2024, 12, 31⟩ := by decide

/-- The digits of a fraction of a second: none, or as many groups of three as it needs. -/
def fraction (nanoseconds : Nat) : List Char :=
  if nanoseconds = 0 then []
  else if nanoseconds % 1000000 = 0 then '.' :: Decimal.renderPadded 3 (nanoseconds / 1000000)
  else if nanoseconds % 1000 = 0 then '.' :: Decimal.renderPadded 6 (nanoseconds / 1000)
  else '.' :: Decimal.renderPadded 9 nanoseconds

/-- A moment as date and time. -/
def render (seconds nanoseconds : Nat) : String :=
  let date := dateOf (seconds / 86400)
  let two := Decimal.renderPadded 2
  String.ofList (Decimal.renderPadded 4 date.year ++ '-' :: two date.month ++ '-' :: two date.day
    ++ 'T' :: two (seconds / 3600 % 24) ++ ':' :: two (seconds / 60 % 60)
    ++ ':' :: two (seconds % 60)
    ++ fraction nanoseconds ++ "+00:00".toList)

end ConstPromotion.Timestamp
