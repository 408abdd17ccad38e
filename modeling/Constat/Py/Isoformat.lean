import Constat.Py.Calendar

/-!
# Py.Isoformat

`datetime.fromisoformat(s).date()`: the ISO 8601 formats the standard library documents. The time
and the offset only have to be there in a valid form; the date is what is read.
-/

namespace Constat

namespace Isoformat

def digit? (c : Char) : Option Nat :=
  if '0' ≤ c ∧ c ≤ '9' then some (c.toNat - '0'.toNat) else none

/-- Exactly `n` digits, and what follows them. -/
def digits : Nat → List Char → Option (Nat × List Char)
  | 0, cs => some (0, cs)
  | _ + 1, [] => none
  | n + 1, c :: cs =>
    match digit? c, digits n cs with
    | some d, some (rest, tail) => some (d * 10 ^ n + rest, tail)
    | _, _ => none

def isDigits (cs : List Char) : Bool := !cs.isEmpty && cs.all fun c => (digit? c).isSome

/-- The number of characters before the separator of date and time. -/
def dateLength (cs : List Char) : Nat :=
  let at_ := fun i => cs.getD i ' '
  let isDigit := fun i => (digit? (at_ i)).isSome
  if cs.length = 7 then 7
  else if at_ 4 = '-' then
    if at_ 5 ≠ 'W' then 10
    else if at_ 8 ≠ '-' then 8
    else if cs.length > 10 ∧ isDigit 10 then 8
    else 10
  else if at_ 4 ≠ 'W' then 8
  else
    let run := ((cs.drop 7).takeWhile fun c => (digit? c).isSome).length
    if run < 2 then 7 + run else if run % 2 = 1 then 7 else 8

/-- The Monday of the first ISO week of a year. -/
def isoWeek1Monday (year : Int) : Int :=
  let first := (Date.ofYmd year 1 1).ordinal
  let weekday := (first + 6) % 7
  let monday := first - weekday
  if weekday > 3 then monday + 7 else monday

def ofIsoWeek (year : Int) (week day : Nat) : Option Date :=
  let weekday := ((Date.ofYmd year 1 1).ordinal + 6) % 7
  let long := weekday = 3 ∨ (weekday = 2 ∧ Date.isLeap year)
  if 1 ≤ week ∧ (week ≤ 52 ∨ (week = 53 ∧ long)) ∧ 1 ≤ day ∧ day ≤ 7 then
    some ⟨isoWeek1Monday year + (week - 1) * 7 + (day - 1)⟩
  else none

def daysInMonth (y : Int) (m : Nat) : Nat :=
  if m = 2 then if Date.isLeap y then 29 else 28
  else if m = 4 ∨ m = 6 ∨ m = 9 ∨ m = 11 then 30 else 31

/-- `YYYY-MM-DD`, `YYYYMMDD`, `YYYY-Www[-D]` or `YYYYWww[D]`. -/
def date (cs : List Char) : Option Date :=
  match digits 4 cs with
  | none => none
  | some (year, rest) =>
    if year = 0 then none
    else
      let dashed := rest.head? = some '-'
      let rest := if dashed then rest.drop 1 else rest
      let skip := fun (cs : List Char) =>
        if dashed then (if cs.head? = some '-' then some (cs.drop 1) else none) else some cs
      if rest.head? = some 'W' then
        match digits 2 (rest.drop 1) with
        | none => none
        | some (week, []) => ofIsoWeek year week 1
        | some (week, rest) =>
          match (skip rest).bind (digits 1) with
          | some (day, []) => ofIsoWeek year week day
          | _ => none
      else
        match digits 2 rest with
        | none => none
        | some (month, rest) =>
          match (skip rest).bind (digits 2) with
          | some (day, []) =>
            if 1 ≤ month ∧ month ≤ 12 ∧ 1 ≤ day ∧ day ≤ daysInMonth year month then
              some (.ofYmd year month day)
            else none
          | _ => none

/-- An optional fraction of the seconds. -/
def isFraction : List Char → Bool
  | [] => true
  | c :: cs => (c = '.' ∨ c = ',') && isDigits cs

/-- `HH[:MM[:SS[.f+]]]` or `HH[MM[SS[.f+]]]`, with every part in its range. -/
def isTime (cs : List Char) : Bool :=
  match digits 2 cs with
  | none => false
  | some (h, []) => h ≤ 23
  | some (h, rest) =>
    let colon := rest.head? = some ':'
    let skip := fun (cs : List Char) =>
      if colon then (if cs.head? = some ':' then some (cs.drop 1) else none) else some cs
    match (skip rest).bind (digits 2) with
    | none => false
    | some (m, []) => h ≤ 23 ∧ m ≤ 59
    | some (m, rest) =>
      match (skip rest).bind (digits 2) with
      | none => false
      | some (s, rest) => h ≤ 23 && m ≤ 59 && s ≤ 59 && isFraction rest

/-- A time with an optional `Z` or offset. -/
def isTimeAndZone (cs : List Char) : Bool :=
  let zone := fun c => c = '+' ∨ c = '-' ∨ c = 'Z'
  let time := cs.takeWhile fun c => !decide (zone c)
  match cs.drop time.length with
  | [] => isTime time
  | 'Z' :: rest => isTime time && rest.isEmpty
  | _ :: rest => isTime time && isTime rest

end Isoformat

/-- `datetime.fromisoformat(s).date()`, `none` for a `ValueError`. -/
def Date.ofIsoformat (s : String) : Option Date :=
  let cs := s.toList
  if cs.length < 7 then none
  else
    let n := Isoformat.dateLength cs
    match Isoformat.date (cs.take n) with
    | none => none
    | some d =>
      match cs.drop n with
      | [] => some d
      | _ :: time => if Isoformat.isTimeAndZone time then some d else none

example : Date.ofIsoformat "2020-W53-7T10:30:15,5+05:30" = some (.ofYmd 2021 1 3) := by
  decide +kernel

end Constat
