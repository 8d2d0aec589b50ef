import Mathlib

/-! `utils/dbtime.rs`: timestamps as the chat tables keep them, in whole seconds. -/
namespace PlainRs.Utils

def isLeap (y : Nat) : Bool := y % 4 = 0 ∧ (y % 100 ≠ 0 ∨ y % 400 = 0)

/-- The year a day falls in and the days left in it; a year has at least 365 of them. -/
def yearOfDays : Nat → Nat → Nat → Nat × Nat
  | 0, year, days => (year, days)
  | fuel + 1, year, days =>
    let dy := if isLeap year then 366 else 365
    if days < dy then (year, days) else yearOfDays fuel (year + 1) (days - dy)

def monthLengths (year : Nat) : List Nat :=
  [31, if isLeap year then 29 else 28, 31, 30, 31, 30, 31, 31, 30, 31, 30, 31]

/-- The month a day of the year falls in and the days left in it. -/
def monthOfDays : List Nat → Nat → Nat → Nat × Nat
  | [], month, days => (month, days)
  | dm :: md, month, days => if days < dm then (month, days) else monthOfDays md (month + 1) (days - dm)

/-- `{:0width}`. -/
def padded (width n : Nat) : String := String.ofList ((Nat.toDigits 10 n).leftpad width '0')

/-- `(YYYY-MM-DD, hh, mm, ss)`. -/
def splitUnixSecs (secs : Nat) : String × Nat × Nat × Nat :=
  let days := secs / 60 / 60 / 24
  let (year, days) := yearOfDays (days / 365) 1970 days
  let (month, days) := monthOfDays (monthLengths year) 1 days
  (s!"{padded 4 year}-{padded 2 month}-{padded 2 (days + 1)}",
    secs / 60 / 60 % 24, secs / 60 % 60, secs % 60)

def unixSecsToIso8601 (secs : Nat) : String :=
  let (date, hh, mm, ss) := splitUnixSecs secs
  s!"{date}T{padded 2 hh}:{padded 2 mm}:{padded 2 ss}Z"

/-- Second precision: what is below a second is cut off. -/
def isoFromUnixMillis (millis : Int) : String := unixSecsToIso8601 ((max millis 0).toNat / 1000)

example : isoFromUnixMillis 1709210096789 = "2024-02-29T12:34:56Z" := by decide +kernel

end PlainRs.Utils
