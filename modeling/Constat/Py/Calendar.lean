import Constat.Orm

/-!
# Py.Calendar

`date` and `datetime` of the standard library, as far as the program formats them. A `Date` is an
ordinal; `ymd` is `date.fromordinal` read back into year, month and day, and `isoformat` prints
`YYYY-MM-DD`.
-/

namespace Constat

namespace Date

/-- Days before the first of January of year `y` (`_days_before_year`). -/
def daysBeforeYear (y : Int) : Int :=
  let p := y - 1
  p * 365 + p / 4 - p / 100 + p / 400

def isLeap (y : Int) : Bool := y % 4 = 0 ∧ (y % 100 ≠ 0 ∨ y % 400 = 0)

/-- Days before the first of month `m` in year `y` (`_days_before_month`). -/
def daysBeforeMonth (y : Int) (m : Nat) : Int :=
  let d : Int := [0, 0, 31, 59, 90, 120, 151, 181, 212, 243, 273, 304, 334].getD m 0
  if m > 2 ∧ isLeap y then d + 1 else d

/-- `date(y, m, d)`. -/
def ofYmd (y : Int) (m : Nat) (d : Int) : Date := ⟨daysBeforeYear y + daysBeforeMonth y m + d⟩

/-- The number of whole cycles of `len` days in `n`, at most `cap` (a leap day ends the cycle). -/
def cycles (n len cap : Int) : Int := min (n / len) cap

/-- Year, month and day of an ordinal (`_ord2ymd`). -/
def ymd (date : Date) : Int × Nat × Int :=
  let n := date.ordinal - 1
  let n400 := n / 146097
  let n := n % 146097
  let n100 := cycles n 36524 3
  let n := n - n100 * 36524
  let n4 := n / 1461
  let n := n % 1461
  let n1 := cycles n 365 3
  let y := n400 * 400 + n100 * 100 + n4 * 4 + n1 + 1
  let n := n - n1 * 365
  let m := ([12, 11, 10, 9, 8, 7, 6, 5, 4, 3, 2].find? fun m => daysBeforeMonth y m ≤ n).getD 1
  (y, m, n - daysBeforeMonth y m + 1)

/-- `(a - b).days`. -/
def daysSince (a b : Date) : Int := a.ordinal - b.ordinal

instance : LT Date := ⟨fun a b => a.ordinal < b.ordinal⟩
instance : LE Date := ⟨fun a b => a.ordinal ≤ b.ordinal⟩

instance (a b : Date) : Decidable (a < b) := inferInstanceAs (Decidable (a.ordinal < b.ordinal))
instance (a b : Date) : Decidable (a ≤ b) := inferInstanceAs (Decidable (a.ordinal ≤ b.ordinal))

end Date

/-- A natural number in decimal, zero-padded to `width` digits. -/
def zeroPad (width : Nat) (n : Nat) : String :=
  let digits := toString n
  String.ofList (List.replicate (width - digits.toList.length) '0') ++ digits

def Date.isoformat (date : Date) : String :=
  let (y, m, d) := date.ymd
  zeroPad 4 y.toNat ++ "-" ++ zeroPad 2 m ++ "-" ++ zeroPad 2 d.toNat

example : (Date.ofYmd 2024 2 29).isoformat = "2024-02-29" := by decide +kernel
example : (Date.ofYmd 2000 12 31).isoformat = "2000-12-31" := by decide +kernel

namespace Micros

def second : Micros := 1000000
def day : Micros := 86400 * second

/-- The ordinal of the epoch, 1970-01-01. -/
def epochOrdinal : Int := 719163

/-- The calendar day a time falls on, and the microseconds since that day began. -/
def dayAndRest (t : Micros) : Date × Micros := (⟨epochOrdinal + Int.fdiv t day⟩, Int.fmod t day)

/-- `datetime.isoformat` of a UTC time; the microseconds are printed when they are not zero. -/
def isoformat (t : Micros) : String :=
  let (date, rest) := dayAndRest t
  let secs := rest.toNat / 1000000
  let us := rest.toNat % 1000000
  date.isoformat ++ "T" ++ zeroPad 2 (secs / 3600) ++ ":" ++ zeroPad 2 (secs / 60 % 60) ++ ":" ++
    zeroPad 2 (secs % 60) ++ (if us = 0 then "" else "." ++ zeroPad 6 us) ++ "+00:00"

example : isoformat 1709251199000001 = "2024-02-29T23:59:59.000001+00:00" := by decide +kernel

end Micros

end Constat
