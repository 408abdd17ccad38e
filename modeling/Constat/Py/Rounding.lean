import Mathlib.Tactic.Linarith
import Constat.Py.Float

/-!
# Py.Rounding

`round` in exact arithmetic: it is monotone, moves a number by half a unit at most, and leaves a
number of whole units as it is. `cents` is `round(x, 2)`.
-/

namespace Constat

theorem roundHalfEven_le (q : Rat) : (roundHalfEven q : Rat) ≤ q + 1 / 2 := by
  have hfloor := Int.floor_le q
  simp only [roundHalfEven]
  split_ifs with hlow hhigh heven
  · linarith
  · push_cast; linarith
  · linarith
  · push_cast; linarith

theorem le_roundHalfEven (q : Rat) : q - 1 / 2 ≤ roundHalfEven q := by
  have hfloor := Int.lt_floor_add_one q
  simp only [roundHalfEven]
  split_ifs with hlow hhigh heven
  · linarith
  · push_cast; linarith
  · linarith
  · push_cast; linarith

theorem roundHalfEven_mono {p q : Rat} (h : p ≤ q) : roundHalfEven p ≤ roundHalfEven q := by
  by_contra hlt
  have hstep : (roundHalfEven q : Rat) + 1 ≤ roundHalfEven p := by
    exact_mod_cast Int.add_one_le_of_lt (not_le.1 hlt)
  have hp := roundHalfEven_le p
  have hq := le_roundHalfEven q
  -- the two can only cross at one point, where they are equal
  have heq : p = q := by linarith
  exact hlt (heq ▸ le_refl _)

@[simp] theorem roundHalfEven_int (n : Int) : roundHalfEven n = n := by
  simp [roundHalfEven]

def cents (q : Rat) : Rat := roundHalfEven (q * 100) / 100

theorem cents_mono {p q : Rat} (h : p ≤ q) : cents p ≤ cents q := by
  have hround : roundHalfEven (p * 100) ≤ roundHalfEven (q * 100) :=
    roundHalfEven_mono (by linarith)
  have hcast : (roundHalfEven (p * 100) : Rat) ≤ roundHalfEven (q * 100) := by exact_mod_cast hround
  rw [cents, cents]
  linarith

@[simp] theorem cents_zero : cents 0 = 0 := by
  have h : roundHalfEven 0 = 0 := by exact_mod_cast roundHalfEven_int 0
  simp [cents, h]

theorem cents_nonneg {q : Rat} (h : 0 ≤ q) : 0 ≤ cents q := by
  rw [← cents_zero]
  exact cents_mono h

/-- Rounding to cents moves an amount by half a cent at most. -/
theorem abs_cents_sub (q : Rat) : |cents q - q| ≤ 1 / 200 := by
  have hle := roundHalfEven_le (q * 100)
  have hge := le_roundHalfEven (q * 100)
  rw [cents, abs_le]
  constructor <;> linarith

/-- A difference of amounts in cents is in cents. -/
theorem cents_sub (p q : Rat) : cents (cents p - cents q) = cents p - cents q := by
  have hwhole : (cents p - cents q) * 100 =
      ((roundHalfEven (p * 100) - roundHalfEven (q * 100) : Int) : Rat) := by
    rw [cents, cents]; push_cast; ring
  rw [cents, hwhole, roundHalfEven_int, ← hwhole]
  linarith

theorem round_exact (q : Rat) : Arith.exact.round 2 (.finite q) = .finite (cents q) := by
  have h : ((10 ^ 2 : Nat) : Rat) = 100 := by norm_num
  simp only [Arith.round, Arith.exact, cents, h]

end Constat
