import Constat.Lib.Loop
import Constat.Py.Text

/-!
# Py.Decimal

`decimal.Decimal` in the default context: 28 digits, half even, exponents up to 999999, with
`InvalidOperation` and `Overflow` trapped. A number is its value; the digits it is written with play
no role in what the program does with it.

* `parse`         — the constructor on a text: a number, or an infinity, or a NaN quiet or signaling.
* `add`, `sub`, `mul`, `ratio` — context arithmetic; `fit` is the only place where a result is
                    rounded.
* `positive`, `negative` — comparisons with zero, which raise on a NaN.
-/

namespace Constat

inductive DecimalError where
  | invalidOperation
  | overflow
deriving DecidableEq

inductive Decimal where
  | finite (q : Rat)
  | inf (neg : Bool)
  | nan (signaling : Bool)
deriving DecidableEq

namespace Decimal

open Py (isAsciiDigit natOf)

def zero : Decimal := .finite 0

def isFinite : Decimal → Bool
  | .finite _ => true
  | _ => false

/-! ## Texts -/

/-- The text in ASCII: white space at the ends and underscores go, decimal digits of other scripts
are read. `none` where a character has no place in a number. -/
def toAscii (cs : List Char) : Option (List Char) :=
  ((Py.strip cs).filter (· ≠ '_')).mapM fun c =>
    if 0 < c.toNat ∧ c.toNat ≤ 127 then some c
    else if Py.isSpace c then some ' '
    else (Py.decimalValue c).map Nat.digitChar

def splitSign : List Char → Bool × List Char
  | '-' :: rest => (true, rest)
  | '+' :: rest => (false, rest)
  | rest => (false, rest)

/-- `inf`, `infinity`, or `nan` or `snan` with digits behind it, in any case. -/
def parseSpecial (neg : Bool) (cs : List Char) : Option Decimal :=
  match cs.map Char.toLower with
  | ['i', 'n', 'f'] => some (.inf neg)
  | ['i', 'n', 'f', 'i', 'n', 'i', 't', 'y'] => some (.inf neg)
  | 'n' :: 'a' :: 'n' :: payload => if payload.all isAsciiDigit then some (.nan false) else none
  | 's' :: 'n' :: 'a' :: 'n' :: payload =>
    if payload.all isAsciiDigit then some (.nan true) else none
  | _ => none

/-- The largest exponent of the first digit of a number, and the smallest of its last digit. -/
def maxAdjusted : Int := 999999999999999999
def minExponent : Int := -1999999999999999997

/-- `coefficient * 10 ^ exponent`, where a decimal can hold it. -/
def ofParts (neg : Bool) (coefficient : Nat) (exponent : Int) : Option Decimal :=
  if coefficient = 0 then some zero
  else if maxAdjusted < exponent + ((Nat.toDigits 10 coefficient).length - 1) then none
  else if exponent < minExponent then none
  else
    let q := coefficient * powInt 10 exponent
    some (.finite (if neg then -q else q))

/-- An exponent, or the end of the text. -/
def parseExponent : List Char → Option Int
  | [] => some 0
  | c :: rest =>
    if c = 'e' ∨ c = 'E' then
      let (neg, digits) := splitSign rest
      if digits ≠ [] ∧ digits.all isAsciiDigit then
        some (if neg then -(natOf digits : Int) else natOf digits)
      else none
    else none

def splitFraction : List Char → List Char × List Char
  | '.' :: rest => (rest.takeWhile isAsciiDigit, rest.dropWhile isAsciiDigit)
  | rest => ([], rest)

/-- Digits with one point in them at most, then an exponent. -/
def parseNumber (neg : Bool) (cs : List Char) : Option Decimal :=
  let whole := cs.takeWhile isAsciiDigit
  let (fraction, rest) := splitFraction (cs.dropWhile isAsciiDigit)
  if whole = [] ∧ fraction = [] then none
  else (parseExponent rest).bind fun exponent =>
    ofParts neg (natOf (whole ++ fraction)) (exponent - fraction.length)

/-- `Decimal(s)`; `none` is an `InvalidOperation`. -/
def parse (s : String) : Option Decimal :=
  (toAscii s.toList).bind fun cs =>
    let (neg, body) := splitSign cs
    match parseSpecial neg body with
    | some d => some d
    | none => parseNumber neg body

/-- The text spells an infinity or a NaN. -/
def Special (s : String) : Prop :=
  ∃ cs, toAscii s.toList = some cs ∧ (parseSpecial (splitSign cs).1 (splitSign cs).2).isSome = true

theorem not_special_empty : ¬ Special "" := by
  rintro ⟨cs, hcs, hsome⟩
  cases hcs
  cases hsome

theorem parseSpecial_not_finite {neg : Bool} {cs : List Char} {d : Decimal}
    (h : parseSpecial neg cs = some d) : d.isFinite = false := by
  unfold parseSpecial at h
  split at h
  · rw [← Option.some.inj h]; rfl
  · rw [← Option.some.inj h]; rfl
  · split_ifs at h
    rw [← Option.some.inj h]; rfl
  · split_ifs at h
    rw [← Option.some.inj h]; rfl
  · cases h

theorem ofParts_finite {neg : Bool} {coefficient : Nat} {exponent : Int} {d : Decimal}
    (h : ofParts neg coefficient exponent = some d) : d.isFinite = true := by
  unfold ofParts at h
  split at h
  · rw [← Option.some.inj h]; rfl
  · split at h
    · cases h
    · split at h
      · cases h
      · rw [← Option.some.inj h]; rfl

theorem parseNumber_finite {neg : Bool} {cs : List Char} {d : Decimal}
    (h : parseNumber neg cs = some d) : d.isFinite = true := by
  unfold parseNumber at h
  simp only at h
  split at h
  · cases h
  · obtain ⟨exponent, _, hparts⟩ := Option.bind_eq_some_iff.1 h
    exact ofParts_finite hparts

/-- What the constructor reads is finite unless the text spells something else. -/
theorem parse_finite_iff {s : String} {d : Decimal} (h : parse s = some d) :
    d.isFinite = true ↔ ¬ Special s := by
  unfold parse at h
  obtain ⟨cs, hcs, hbody⟩ := Option.bind_eq_some_iff.1 h
  have hspecial : Special s ↔ (parseSpecial (splitSign cs).1 (splitSign cs).2).isSome = true := by
    unfold Special
    simp [hcs]
  rw [hspecial]
  simp only at hbody
  cases hsp : parseSpecial (splitSign cs).1 (splitSign cs).2 with
  | some d' =>
    rw [hsp] at hbody
    rw [← Option.some.inj hbody, parseSpecial_not_finite hsp]
    simp
  | none =>
    rw [hsp] at hbody
    rw [parseNumber_finite hbody]
    simp

theorem parse_of_special {s : String} (h : Special s) :
    ∃ d, parse s = some d ∧ d.isFinite = false := by
  obtain ⟨cs, hcs, hsome⟩ := h
  obtain ⟨d, hd⟩ := Option.isSome_iff_exists.1 hsome
  refine ⟨d, ?_, parseSpecial_not_finite hd⟩
  simp only [parse, hcs, Option.bind_some, hd]

/-! ## Arithmetic -/

/-- Round to the context; a result that is too large is trapped. -/
def fit (q : Rat) : Except DecimalError Decimal :=
  if q = 0 then .ok zero
  else
    let e := max (ilog10 |q| - 27) (-1000026)
    let r := roundHalfEven (q / powInt 10 e) * powInt 10 e
    if powInt 10 1000000 ≤ |r| then .error .overflow else .ok (.finite r)

def neg : Decimal → Decimal
  | .finite q => .finite (-q)
  | .inf s => .inf (!s)
  | .nan s => .nan s

def add : Decimal → Decimal → Except DecimalError Decimal
  | .nan true, _ | _, .nan true => .error .invalidOperation
  | .nan false, _ | _, .nan false => .ok (.nan false)
  | .finite a, .finite b => fit (a + b)
  | .inf s, .inf t => if s = t then .ok (.inf s) else .error .invalidOperation
  | .inf s, .finite _ => .ok (.inf s)
  | .finite _, .inf t => .ok (.inf t)

def sub (a b : Decimal) : Except DecimalError Decimal := add a (neg b)

/-- An infinity has no product with zero. -/
def mul : Decimal → Decimal → Except DecimalError Decimal
  | .nan true, _ | _, .nan true => .error .invalidOperation
  | .nan false, _ | _, .nan false => .ok (.nan false)
  | .finite a, .finite b => fit (a * b)
  | .inf s, .inf t => .ok (.inf (s != t))
  | .inf s, .finite q | .finite q, .inf s =>
    if q = 0 then .error .invalidOperation else .ok (.inf (s != decide (q < 0)))

/-- `Decimal(m) / Decimal(n)` of whole numbers, `n` not zero. -/
def ratio (m n : Nat) : Except DecimalError Decimal := fit (m / n)

/-- `d > 0`. -/
def positive : Decimal → Except DecimalError Bool
  | .nan _ => .error .invalidOperation
  | .inf s => .ok !s
  | .finite q => .ok (0 < q)

/-- `d < 0`. -/
def negative : Decimal → Except DecimalError Bool
  | .nan _ => .error .invalidOperation
  | .inf s => .ok s
  | .finite q => .ok (q < 0)

/-- `abs(d)`. -/
def abs : Decimal → Except DecimalError Decimal
  | .nan true => .error .invalidOperation
  | .nan false => .ok (.nan false)
  | .inf _ => .ok (.inf false)
  | .finite q => fit |q|

/-- `f"{d:.2f}"`. -/
def fixed2 : Decimal → String
  | .nan signaling => if signaling then "sNaN" else "NaN"
  | .inf s => if s then "-Infinity" else "Infinity"
  | .finite q => (PyFloat.finite q).fixed2

def nanToFloat : PyError := ⟨"ValueError", "cannot convert signaling NaN to float"⟩

/-- `float(d)`. -/
def toFloat : Decimal → Except PyError PyFloat
  | .nan true => .error nanToFloat
  | .nan false => .ok .nan
  | .inf s => .ok (.inf s)
  | .finite q => .ok (.ofRat q)

/-- `sum(values, Decimal("0"))`. -/
def sum (values : List Decimal) : Except DecimalError Decimal := values.foldlM add zero

theorem fit_finite {q : Rat} {d : Decimal} (h : fit q = .ok d) : d.isFinite = true := by
  unfold fit at h
  simp only at h
  split at h
  · rw [← Except.ok.inj h]; rfl
  · split at h
    · cases h
    · rw [← Except.ok.inj h]; rfl

/-- Finite numbers have a finite sum or none. -/
theorem add_finite {a b d : Decimal} (ha : a.isFinite = true) (hb : b.isFinite = true)
    (h : add a b = .ok d) : d.isFinite = true := by
  cases a with
  | finite p =>
    cases b with
    | finite q => exact fit_finite h
    | inf s => cases hb
    | nan s => cases hb
  | inf s => cases ha
  | nan s => cases ha

theorem neg_finite {a : Decimal} (ha : a.isFinite = true) : a.neg.isFinite = true := by
  cases a with
  | finite q => rfl
  | inf s => cases ha
  | nan s => cases ha

theorem sub_finite {a b d : Decimal} (ha : a.isFinite = true) (hb : b.isFinite = true)
    (h : sub a b = .ok d) : d.isFinite = true := add_finite ha (neg_finite hb) h

theorem foldlM_add_finite {xs : List Decimal} (hxs : ∀ x ∈ xs, x.isFinite = true) :
    ∀ {a d : Decimal}, a.isFinite = true → xs.foldlM add a = .ok d → d.isFinite = true := by
  induction xs with
  | nil => intro a d ha h; cases h; exact ha
  | cons x xs ih =>
    intro a d ha h
    obtain ⟨b, hb, hrest⟩ := Loop.foldlM_cons_ok.1 h
    have hfinite := add_finite ha (hxs x List.mem_cons_self) hb
    exact ih (fun y hy => hxs y (List.mem_cons_of_mem x hy)) hfinite hrest

theorem sum_finite {xs : List Decimal} (hxs : ∀ x ∈ xs, x.isFinite = true) {d : Decimal}
    (h : sum xs = .ok d) : d.isFinite = true := foldlM_add_finite hxs rfl h

example : parse " +1_2.50e1 " = some (.finite 125) := by decide +kernel
example : parse "-iNfInity" = some (.inf true) := by decide +kernel
example : sum [.finite (1 / 4), .nan false, .inf true] = .ok (.nan false) := by decide +kernel

end Decimal

end Constat
