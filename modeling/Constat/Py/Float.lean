import Mathlib.Data.Rat.Floor
import Constat.Py.Error
import Constat.Py.Json

/-!
# Py.Float

Python's floats. `Arith.fit` is the only place where a result is rounded: `Arith.double` rounds to
the nearest IEEE double, as the program runs, and `Arith.exact` keeps the rational, so a result
about the amounts themselves can be stated in either. No operation of the program yields a
negative zero, so zero is the rational zero.
-/

namespace Constat

/-- Round to an integer, ties to even. -/
def roundHalfEven (q : Rat) : Int :=
  let f := ⌊q⌋
  let r := q - f
  if r < 1 / 2 then f
  else if 1 / 2 < r then f + 1
  else if f % 2 = 0 then f
  else f + 1

/-- `base ^ e`. -/
def powInt (base : Nat) (e : Int) : Rat :=
  if 0 ≤ e then (base ^ e.toNat : Nat) else 1 / (base ^ (-e).toNat : Nat)

/-- The exponent `e` with `2 ^ e ≤ q < 2 ^ (e + 1)` of a positive `q`. -/
def ilog2 (q : Rat) : Int :=
  let e := (Nat.log2 q.num.natAbs : Int) - Nat.log2 q.den
  if q < powInt 2 e then e - 1 else e

/-- The exponent `e` with `10 ^ e ≤ q < 10 ^ (e + 1)` of a positive `q`. -/
def ilog10 (q : Rat) : Int :=
  let digits := fun n => ((Nat.toDigits 10 n).length : Int)
  let e := digits q.num.natAbs - digits q.den
  if q < powInt 10 e then e - 1 else e

namespace PyFloat

/-- The nearest double: 53 bits of precision, subnormals below, infinity above. -/
def ofRat (q : Rat) : PyFloat :=
  if q = 0 then .finite 0
  else
    let e := max (ilog2 |q| - 52) (-1074)
    let r := roundHalfEven (q / powInt 2 e) * powInt 2 e
    if powInt 2 1024 ≤ |r| then .inf (q < 0) else .finite r

def isNeg : PyFloat → Bool
  | .finite q => q < 0
  | .inf neg => neg
  | .nan => false

def isZero : PyFloat → Bool
  | .finite q => q = 0
  | _ => false

/-- `a < b`, false when either is nan. -/
def lt : PyFloat → PyFloat → Bool
  | .nan, _ | _, .nan => false
  | .finite a, .finite b => a < b
  | .inf s, .inf t => s && !t
  | .inf s, .finite _ => s
  | .finite _, .inf t => !t

/-- `a >= b`, false when either is nan. -/
def ge : PyFloat → PyFloat → Bool
  | .nan, _ | _, .nan => false
  | a, b => !lt a b

end PyFloat

structure Arith where
  fit : Rat → PyFloat

namespace Arith

def double : Arith := ⟨PyFloat.ofRat⟩

def exact : Arith := ⟨.finite⟩

variable (fp : Arith)

/-- A float literal. -/
def lit (q : Rat) : PyFloat := fp.fit q

def overflow : PyError := ⟨"OverflowError", "int too large to convert to float"⟩

/-- `float(i)`. -/
def ofInt (i : Int) : Except PyError PyFloat :=
  match fp.fit i with
  | .finite q => .ok (.finite q)
  | _ => .error overflow

def mul : PyFloat → PyFloat → PyFloat
  | .nan, _ | _, .nan => .nan
  | .finite a, .finite b => fp.fit (a * b)
  | a, b => if a.isZero || b.isZero then .nan else .inf (a.isNeg != b.isNeg)

def add : PyFloat → PyFloat → PyFloat
  | .nan, _ | _, .nan => .nan
  | .finite a, .finite b => fp.fit (a + b)
  | .inf s, .inf t => if s = t then .inf s else .nan
  | .inf s, .finite _ => .inf s
  | .finite _, .inf t => .inf t

def sub : PyFloat → PyFloat → PyFloat
  | .nan, _ | _, .nan => .nan
  | .finite a, .finite b => fp.fit (a - b)
  | .inf s, .inf t => if s = t then .nan else .inf s
  | .inf s, .finite _ => .inf s
  | .finite _, .inf t => .inf (!t)

/-- `a / b` for a divisor that is not zero. -/
def div : PyFloat → PyFloat → PyFloat
  | .nan, _ | _, .nan => .nan
  | .finite a, .finite b => fp.fit (a / b)
  | .inf _, .inf _ => .nan
  | .inf s, .finite b => .inf (s != decide (b < 0))
  | .finite _, .inf _ => fp.fit 0

/-- `round(x, digits)`. -/
def round (digits : Nat) : PyFloat → PyFloat
  | .finite q => fp.fit (roundHalfEven (q * (10 ^ digits : Nat)) / (10 ^ digits : Nat))
  | x => x

end Arith

/-! ## Printing -/

namespace PyFloat

def digitsOf (n : Nat) : String := String.ofList (Nat.toDigits 10 n)

/-- `n` as a decimal with `decimals` digits after the point. -/
def pointed (decimals n : Nat) : String :=
  let digits := Nat.toDigits 10 n
  let digits := List.replicate (decimals + 1 - digits.length) '0' ++ digits
  String.ofList (digits.take (digits.length - decimals)) ++ "." ++
    String.ofList (digits.drop (digits.length - decimals))

/-- `f"{x:.2f}"`. -/
def fixed2 : PyFloat → String
  | .nan => "nan"
  | .inf neg => if neg then "-inf" else "inf"
  | .finite q => (if q < 0 then "-" else "") ++ pointed 2 (roundHalfEven (|q| * 100)).toNat

/-- The shortest digits that read back as `q > 0`, and the exponent of the first one. -/
def shortest (q : Rat) : Nat × Int :=
  let k := ilog10 q
  let candidate := fun (n : Nat) => roundHalfEven (q / powInt 10 (k - n + 1))
  let n := ((List.range 17).map (· + 1)).find? fun n =>
    ofRat (candidate n * powInt 10 (k - n + 1)) = .finite q
  let n := n.getD 17
  let m := (candidate n).toNat
  if m = 10 ^ n then (1, k + 1) else (m, k)

/-- `repr(x)`. -/
def repr : PyFloat → String
  | .nan => "nan"
  | .inf neg => if neg then "-inf" else "inf"
  | .finite q =>
    if q = 0 then "0.0"
    else
      let (m, k) := shortest |q|
      let digits := Nat.toDigits 10 m
      let sign := if q < 0 then "-" else ""
      if -4 ≤ k ∧ k < 16 then
        let decimals := max (digits.length - 1 - k : Int) 1
        sign ++ pointed decimals.toNat (m * 10 ^ (decimals - (digits.length - 1 - k)).toNat)
      else
        let rest := digits.drop 1
        let exponent := digitsOf k.natAbs
        sign ++ String.ofList (digits.take 1) ++
          (if rest = [] then "" else "." ++ String.ofList rest) ++ "e" ++
          (if k < 0 then "-" else "+") ++ (if k.natAbs < 10 then "0" ++ exponent else exponent)

example : (ofRat (1 / 10)).repr = "0.1" := by decide +kernel
example : (ofRat 12345678901234567890).repr = "1.2345678901234567e+19" := by decide +kernel
example : (Arith.double.round 2 (ofRat (2675 / 1000))).fixed2 = "2.67" := by decide +kernel

end PyFloat

end Constat
