import Printf.Radix

/-! Dates of the proleptic Gregorian calendar and timestamps. A year is counted from March, so that
the leap day is its last one, and 400 such years make an era of constant length. -/
namespace Printf

structure Date where
  year : Int
  month : Nat
  day : Nat
  deriving DecidableEq, Repr

namespace Date

def isLeap (year : Int) : Bool := year % 4 == 0 && (year % 100 != 0 || year % 400 == 0)

def monthLength (year : Int) (month : Nat) : Nat :=
  if month = 2 then if isLeap year then 29 else 28
  else if month = 4 ∨ month = 6 ∨ month = 9 ∨ month = 11 then 30
  else 31

def next (d : Date) : Date :=
  if d.day < monthLength d.year d.month then { d with day := d.day + 1 }
  else if d.month < 12 then ⟨d.year, d.month + 1, 1⟩
  else ⟨d.year + 1, 1, 1⟩

/-- Days in 400 years. -/
def eraLength : Int := 146097

/-- The day 1 March of the year 0, counted from 1 January 1970. -/
def eraStart : Int := -719468

/-- The year of an era that its `n`-th day falls into. Leap days are taken out first. -/
def yearOfEra (n : Nat) : Nat := (n - n / 1460 + n / 36524 - n / 146096) / 365

def dayOfYear (n : Nat) : Nat :=
  let y := yearOfEra n
  n - (365 * y + y / 4 - y / 100)

/-- The date of the day `days` after 1 January 1970. The months from March on have 153 days in
every five. -/
def ofDays (days : Int) : Date :=
  let n := ((days - eraStart) % eraLength).toNat
  let era := (days - eraStart) / eraLength
  let inYear := dayOfYear n
  let fromMarch := (5 * inYear + 2) / 153
  let month := if fromMarch < 10 then fromMarch + 3 else fromMarch - 9
  { year := yearOfEra n + era * 400 + if month ≤ 2 then 1 else 0
    month
    day := inYear - (153 * fromMarch + 2) / 5 + 1 }

end Date

structure Instant where
  seconds : Nat
  millis : Nat
  deriving DecidableEq, Repr

namespace Instant

/-- The instant a clock shows. A clock before 1970 is taken to stand at its start. -/
def ofClock (seconds : Int) (nanos : Nat) : Instant :=
  if seconds < 0 then ⟨0, 0⟩ else ⟨seconds.toNat, nanos / 1000000⟩

def date (t : Instant) : Date := .ofDays (t.seconds / 86400 : Nat)

def secondOfDay (t : Instant) : Nat := t.seconds % 86400

/-- The timestamp, as in 2000-02-29T23:59:59.000Z. -/
def text (t : Instant) : String :=
  let pad := Radix.paddedText
  let d := t.date
  let s := t.secondOfDay
  pad 4 d.year.toNat ++ "-" ++ pad 2 d.month ++ "-" ++ pad 2 d.day ++ "T" ++
    pad 2 (s / 3600) ++ ":" ++ pad 2 (s % 3600 / 60) ++ ":" ++ pad 2 (s % 60) ++ "." ++
    pad 3 t.millis ++ "Z"

end Instant
end Printf
