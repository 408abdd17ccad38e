import Constat.Py.Calendar
import Constat.Py.Float

/-!
# Catalog.Fx

`catalog/fx.py`: the dated reference rate, and `usd_to_eur` in the arithmetic of `decimal` (28
significant digits, ties to even, then cents rounded half up).
-/

namespace Constat

namespace Fx

/-- A decimal of a fixed number of places. -/
structure Quantized where
  neg : Bool
  units : Nat
deriving DecidableEq

def Quantized.text (places : Nat) (d : Quantized) : String :=
  (if d.neg then "-" else "") ++ PyFloat.pointed places d.units

def precision : Nat := 28

/-- What an operation of the default context makes of the result `q`. -/
def rounded (q : Rat) : Rat :=
  if q = 0 then 0
  else
    let unit := powInt 10 (ilog10 |q| - (precision - 1))
    roundHalfEven (q / unit) * unit

def invalidOperation : PyError := ⟨"InvalidOperation", "[<class 'decimal.InvalidOperation'>]"⟩

def halfUp (places : Nat) (q : Rat) : Quantized :=
  ⟨decide (q < 0), ⌊|q| * (10 ^ places : Nat) + 1 / 2⌋.toNat⟩

/-- `q.quantize(..., rounding=ROUND_HALF_UP)`; a result of too many digits raises. -/
def quantize (places : Nat) (q : Rat) : Except PyError Quantized :=
  if 10 ^ precision ≤ (halfUp places q).units then .error invalidOperation
  else .ok (halfUp places q)

/-- `Decimal(str(x))` of a finite float. -/
def decimalOf (q : Rat) : Rat :=
  if q = 0 then 0
  else
    let (m, k) := PyFloat.shortest |q|
    let value := m * powInt 10 (k - (Nat.toDigits 10 m).length + 1)
    if q < 0 then -value else value

def usdPerEur : Rat := 11435 / 10000

def rateDate : Date := .ofYmd 2026 7 17

/-- `usd_to_eur_rate`: 1 USD in EUR, to six places. -/
def usdToEurRate : Quantized := halfUp 6 (rounded (1 / usdPerEur))

/-- The amount in EUR (`none` when it is not a number), the rate and its date. -/
def usdToEur : PyFloat → Except PyError (Option Quantized × Quantized × Date)
  | .nan => .ok (none, usdToEurRate, rateDate)
  | .inf _ => .error invalidOperation
  | .finite q => (quantize 2 (rounded (decimalOf q / usdPerEur))).map
      fun eur => (some eur, usdToEurRate, rateDate)

example : usdToEurRate.text 6 = "0.874508" := by decide +kernel
example : (quantize 2 (rounded (decimalOf 584 / usdPerEur))).map (·.text 2) = .ok "510.71" := by
  decide +kernel

end Fx

end Constat
