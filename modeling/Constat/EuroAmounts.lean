import Mathlib.Tactic.Linarith
import Mathlib.Tactic.NormNum
import Constat.Catalog.Fx

/-!
# EuroAmounts

The two EUR figures of one USD amount, in exact arithmetic: `usd_to_eur`, which the CSV export
writes, divides by the published quote, and `formatUsdEur` of `lib/api.ts`, which the restitution
page shows, multiplies by the rate that was rounded to six places. Both round half up to cents.

* `Between`   — a half cent that separates the two products.
* `agree_iff` — the figures are the same exactly for the amounts without one.
* `differ_of_large` — every amount from 112 108 USD on has one.
-/

namespace Constat

namespace Fx

/-- `usd_to_eur` without the 28 digits of its context. -/
def eurExported (usd : Rat) : Quantized := halfUp 2 (usd / usdPerEur)

/-! ## lib/api.ts -/

/-- `FX_USD_TO_EUR`. -/
def fxUsdToEur : Rat := 874508 / 1000000

example : usdToEurRate = ⟨false, 874508⟩ := by decide +kernel

/-- The digits of `n` in groups of three. -/
def grouped (n : Nat) : String :=
  ",".intercalate
    (((Nat.toDigits 10 n).reverse.toChunks 3).reverse.map fun ds => String.ofList ds.reverse)

/-- `toLocaleString("en-US", { style: "currency" })`, which rounds ties away from zero. -/
def localeCurrency (symbol : String) (d : Quantized) : String :=
  (if d.neg then "-" else "") ++ symbol ++ grouped (d.units / 100) ++ "." ++
    zeroPad 2 (d.units % 100)

def fmtUsdAmount (usd : Rat) : String := localeCurrency "$" (halfUp 2 usd)

def eurShown (usd : Rat) : Quantized := halfUp 2 (usd * fxUsdToEur)

def formatUsdEur : Option Rat → String
  | none => "—"
  | some usd => fmtUsdAmount usd ++ " / " ++ localeCurrency "€" (eurShown usd)

example : formatUsdEur (some 584) = "$584.00 / €510.71" := by decide +kernel

/-! ## Rounding -/

/-- Two numbers have one floor when no integer is past the first and not past the second. -/
theorem floor_eq_floor_iff {x y : Rat} (h : x ≤ y) :
    ⌊x⌋ = ⌊y⌋ ↔ ∀ n : Int, ¬ (x < n ∧ n ≤ y) := by
  constructor
  · rintro heq n ⟨hlt, hle⟩
    have hx : ⌊x⌋ < n := Int.floor_lt.2 hlt
    have hy : n ≤ ⌊y⌋ := Int.le_floor.2 hle
    omega
  · intro hnone
    refine le_antisymm (Int.floor_le_floor h) ?_
    by_contra hlt
    refine hnone ⌊y⌋ ⟨?_, Int.floor_le y⟩
    exact Int.floor_lt.1 (not_le.1 hlt)

/-- Half a cent past `n` cents, in EUR. -/
def halfCent (n : Nat) : Rat := (2 * n + 1) / 200

/-- `n` cents and a half lie between the two products: the exact one reaches them, the other one
does not. -/
def Between (usd : Rat) (n : Nat) : Prop :=
  halfCent n * usdPerEur ≤ |usd| ∧ |usd| < halfCent n / fxUsdToEur

theorem units_halfUp (q : Rat) : (halfUp 2 q).units = ⌊|q| * 100 + 1 / 2⌋.toNat := by
  simp [halfUp]

theorem abs_exported (usd : Rat) : |usd / usdPerEur| = |usd| / (11435 / 10000) := by
  rw [abs_div, show |usdPerEur| = 11435 / 10000 by norm_num [usdPerEur]]

theorem abs_shown (usd : Rat) : |usd * fxUsdToEur| = |usd| * (874508 / 1000000) := by
  rw [abs_mul, show |fxUsdToEur| = 874508 / 1000000 by norm_num [fxUsdToEur]]

theorem floor_shown_nonneg (usd : Rat) : 0 ≤ ⌊|usd * fxUsdToEur| * 100 + 1 / 2⌋ := by
  have hnonneg := abs_nonneg (usd * fxUsdToEur)
  exact Int.floor_nonneg.2 (by linarith)

/-- The rounded rate is the smaller one. -/
theorem shown_le_exported (usd : Rat) :
    |usd * fxUsdToEur| * 100 + 1 / 2 ≤ |usd / usdPerEur| * 100 + 1 / 2 := by
  have hnonneg := abs_nonneg usd
  rw [abs_shown, abs_exported]
  linarith

theorem between_iff (usd : Rat) (n : Nat) :
    Between usd n ↔ |usd * fxUsdToEur| * 100 + 1 / 2 < ((n + 1 : Nat) : Int) ∧
      (((n + 1 : Nat) : Int) : Rat) ≤ |usd / usdPerEur| * 100 + 1 / 2 := by
  rw [abs_shown, abs_exported, Between, halfCent, usdPerEur, fxUsdToEur]
  push_cast
  constructor
  · rintro ⟨hle, hlt⟩
    constructor <;> linarith
  · rintro ⟨hlt, hle⟩
    constructor <;> linarith

theorem units_eq_iff (usd : Rat) :
    (eurExported usd).units = (eurShown usd).units ↔ ∀ n : Nat, ¬ Between usd n := by
  have hshown := floor_shown_nonneg usd
  have hle := Int.floor_le_floor (shown_le_exported usd)
  have hfloors : (eurExported usd).units = (eurShown usd).units ↔
      ⌊|usd * fxUsdToEur| * 100 + 1 / 2⌋ = ⌊|usd / usdPerEur| * 100 + 1 / 2⌋ := by
    rw [eurExported, eurShown, units_halfUp, units_halfUp]
    omega
  rw [hfloors, floor_eq_floor_iff (shown_le_exported usd)]
  constructor
  · intro hnone n hbetween
    exact hnone _ ((between_iff usd n).1 hbetween)
  · rintro hnone m ⟨hlt, hmle⟩
    have hpos : 0 < m := by
      have hm : (0 : Rat) < m := by
        have hnonneg := abs_nonneg (usd * fxUsdToEur)
        linarith
      exact_mod_cast hm
    obtain ⟨n, rfl⟩ : ∃ n : Nat, m = ((n + 1 : Nat) : Int) := ⟨(m - 1).toNat, by omega⟩
    exact hnone n ((between_iff usd n).2 ⟨hlt, hmle⟩)

/-- Both figures have the sign of the amount. -/
theorem neg_eq (usd : Rat) : (eurExported usd).neg = (eurShown usd).neg := by
  simp only [eurExported, eurShown, halfUp, decide_eq_decide]
  rw [div_neg_iff, mul_neg_iff]
  norm_num [usdPerEur, fxUsdToEur]

theorem agree_iff (usd : Rat) :
    eurExported usd = eurShown usd ↔ ∀ n : Nat, ¬ Between usd n := by
  rw [← units_eq_iff]
  have hneg := neg_eq usd
  cases hexported : eurExported usd
  cases hshown : eurShown usd
  rw [hexported, hshown] at hneg
  simp only [Quantized.mk.injEq]
  exact ⟨fun h => h.2, fun h => ⟨hneg, h⟩⟩

/-- 33.03 USD: 28.89 EUR in the export, 28.88 EUR on the page. -/
theorem not_agree : ¬ ∀ usd : Rat, eurExported usd = eurShown usd := by
  intro h
  exact absurd (h (3303 / 100)) (by decide +kernel)

/-- From here on the two products are a cent apart. -/
theorem differ_of_large {usd : Rat} (h : 112108 ≤ |usd|) : eurExported usd ≠ eurShown usd := by
  intro heq
  have hunits := congrArg Quantized.units heq
  rw [eurExported, eurShown, units_halfUp, units_halfUp] at hunits
  have hgap : |usd * fxUsdToEur| * 100 + 1 / 2 + 1 ≤ |usd / usdPerEur| * 100 + 1 / 2 := by
    rw [abs_shown, abs_exported]
    linarith
  have hfloor := Int.floor_le_floor hgap
  rw [Int.floor_add_one] at hfloor
  have hshown := floor_shown_nonneg usd
  omega

end Fx

end Constat
