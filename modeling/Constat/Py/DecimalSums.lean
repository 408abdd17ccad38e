import Mathlib.Algebra.Order.BigOperators.Group.List
import Mathlib.Tactic.FieldSimp
import Constat.Py.DecimalDigits

/-!
# Py.DecimalSums

The context rounds to 28 digits, so a sum of decimals is not the sum of their values: it may raise,
lose digits, and depend on the order. Numbers on one grid are the exception. As long as their sizes
add up to at most `10 ^ 28` grid steps, every partial sum has 28 digits.

* `FitsDigits`  — the numbers have `d` decimals, and together 28 digits.
* `sum_of_fits` — their sum in the context is the sum of their values.
-/

namespace Constat

namespace Decimal

/-- The number a decimal stands for; an infinity or a NaN stands for none. -/
def value : Decimal → Rat
  | .finite q => q
  | .inf _ | .nan _ => 0

@[simp] theorem value_finite (q : Rat) : (finite q).value = q := rfl

theorem finite_value {x : Decimal} (h : x.isFinite = true) : .finite x.value = x := by
  cases x with
  | finite q => rfl
  | inf s => cases h
  | nan s => cases h

/-! ## Grids -/

/-- A number of at most `d` decimals. -/
def OnGrid (d : Nat) (q : Rat) : Prop := ∃ n : Int, q = n / 10 ^ d

theorem onGrid_iff {d : Nat} {q : Rat} : OnGrid d q ↔ (q * 10 ^ d).den = 1 := by
  have hgrid : (10 : Rat) ^ d ≠ 0 := by positivity
  constructor
  · rintro ⟨n, rfl⟩
    rw [div_mul_cancel₀ _ hgrid]
    rfl
  · intro h
    exact ⟨(q * 10 ^ d).num, by rw [Rat.den_eq_one_iff _ |>.1 h, mul_div_cancel_right₀ _ hgrid]⟩

instance (d : Nat) (q : Rat) : Decidable (OnGrid d q) := decidable_of_iff _ onGrid_iff.symm

theorem onGrid_zero (d : Nat) : OnGrid d 0 := ⟨0, by simp⟩

theorem OnGrid.add {d : Nat} {p q : Rat} (hp : OnGrid d p) (hq : OnGrid d q) :
    OnGrid d (p + q) := by
  obtain ⟨m, rfl⟩ := hp
  obtain ⟨n, rfl⟩ := hq
  exact ⟨m + n, by push_cast; ring⟩

/-- On the grid and not too large, a number is rounded already. -/
theorem OnGrid.rounded {d : Nat} {q : Rat} (hq : OnGrid d q) (hsize : |q| * 10 ^ d ≤ 10 ^ 28)
    (hd : d ≤ 1000026) : Rounded q := by
  obtain ⟨n, rfl⟩ := hq
  have hgrid : (0 : Rat) < 10 ^ d := by positivity
  have habs : |(n : Rat) / 10 ^ d| = |(n : Rat)| / 10 ^ d := by rw [abs_div, abs_of_pos hgrid]
  rw [habs, div_mul_cancel₀ _ hgrid.ne'] at hsize
  refine ⟨?_, n, -d, ?_, by exact_mod_cast hsize, by omega⟩
  · have hone : (1 : Rat) ≤ 10 ^ d := one_le_pow₀ (by norm_num)
    calc |(n : Rat) / 10 ^ d| = |(n : Rat)| / 10 ^ d := habs
      _ ≤ |(n : Rat)| := div_le_self (abs_nonneg _) hone
      _ ≤ 10 ^ (28 : Int) := by exact_mod_cast hsize
      _ < 10 ^ (1000000 : Int) := zpow_lt_zpow_right₀ (by norm_num) (by norm_num)
      _ = powInt 10 1000000 := by rw [powInt_eq]; rfl
  · rw [zpow_neg, zpow_natCast, div_eq_mul_inv]

/-! ## Sums -/

/-- `d` decimals at most, and the sizes add up to 28 digits. -/
structure FitsDigits (d : Nat) (qs : List Rat) : Prop where
  grid : ∀ q ∈ qs, OnGrid d q
  size : (qs.map fun q => |q|).sum * 10 ^ d ≤ 10 ^ 28
  depth : d ≤ 1000026

theorem fitsDigits_iff {d : Nat} {qs : List Rat} : FitsDigits d qs ↔
    (∀ q ∈ qs, OnGrid d q) ∧ (qs.map fun q => |q|).sum * 10 ^ d ≤ 10 ^ 28 ∧ d ≤ 1000026 :=
  ⟨fun h => ⟨h.grid, h.size, h.depth⟩, fun h => ⟨h.1, h.2.1, h.2.2⟩⟩

instance (d : Nat) (qs : List Rat) : Decidable (FitsDigits d qs) :=
  decidable_of_iff _ fitsDigits_iff.symm

theorem FitsDigits.sublist {d : Nat} {qs ps : List Rat} (h : FitsDigits d qs)
    (hsub : ps.Sublist qs) : FitsDigits d ps where
  grid := fun q hq => h.grid q (hsub.subset hq)
  size := by
    have hsum : (ps.map fun q => |q|).sum ≤ (qs.map fun q => |q|).sum := by
      refine (hsub.map _).sum_le_sum fun q hq => ?_
      obtain ⟨p, _, rfl⟩ := List.mem_map.1 hq
      exact abs_nonneg p
    have hpos : (0 : Rat) ≤ 10 ^ d := by positivity
    exact (mul_le_mul_of_nonneg_right hsum hpos).trans h.size
  depth := h.depth

theorem FitsDigits.perm {d : Nat} {qs ps : List Rat} (h : FitsDigits d qs)
    (hperm : List.Perm qs ps) : FitsDigits d ps where
  grid := fun q hq => h.grid q (hperm.mem_iff.2 hq)
  size := by rw [← (hperm.map _).sum_eq]; exact h.size
  depth := h.depth

/-- A loop that adds numbers of one grid keeps to the grid, so no step rounds. -/
theorem foldlM_add_of_fits {d : Nat} (hd : d ≤ 1000026) {qs : List Rat}
    (hqs : ∀ q ∈ qs, OnGrid d q) : ∀ {a : Rat}, OnGrid d a →
      (|a| + (qs.map fun q => |q|).sum) * 10 ^ d ≤ 10 ^ 28 →
      (qs.map finite).foldlM add (finite a) = .ok (finite (a + qs.sum)) := by
  have hpos : (0 : Rat) ≤ 10 ^ d := by positivity
  induction qs with
  | nil => intro a _ _; simp [pure, Except.pure]
  | cons q qs ih =>
    intro a ha hsize
    rw [List.forall_mem_cons] at hqs
    rw [List.map_cons, List.sum_cons] at hsize
    have hnonneg : 0 ≤ (qs.map fun q => |q|).sum := by
      refine List.sum_nonneg fun x hx => ?_
      obtain ⟨p, _, rfl⟩ := List.mem_map.1 hx
      exact abs_nonneg p
    have habs : |a + q| ≤ |a| + |q| := abs_add_le a q
    have hnext : |a + q| * 10 ^ d ≤ 10 ^ 28 := by
      refine (mul_le_mul_of_nonneg_right ?_ hpos).trans hsize
      linarith
    have hrest : (|a + q| + (qs.map fun q => |q|).sum) * 10 ^ d ≤ 10 ^ 28 := by
      refine (mul_le_mul_of_nonneg_right ?_ hpos).trans hsize
      linarith
    have hstep : add (finite a) (finite q) = .ok (finite (a + q)) :=
      fit_of_rounded ((ha.add hqs.1).rounded hnext hd)
    rw [List.map_cons, Loop.foldlM_cons_ok]
    exact ⟨_, hstep, by rw [ih hqs.2 (ha.add hqs.1) hrest, List.sum_cons, add_assoc]⟩

theorem sum_of_fits {d : Nat} {qs : List Rat} (h : FitsDigits d qs) :
    sum (qs.map finite) = .ok (finite qs.sum) := by
  have hsize : (|(0 : Rat)| + (qs.map fun q => |q|).sum) * 10 ^ d ≤ 10 ^ 28 := by
    rw [abs_zero, zero_add]
    exact h.size
  rw [sum, zero, foldlM_add_of_fits h.depth h.grid (onGrid_zero d) hsize, zero_add]

/-- Finite decimals whose values fit have the sum of their values. -/
theorem sum_values {d : Nat} {xs : List Decimal} (hxs : ∀ x ∈ xs, x.isFinite = true)
    (h : FitsDigits d (xs.map value)) : sum xs = .ok (finite (xs.map value).sum) := by
  have hback : (xs.map value).map finite = xs := by
    rw [List.map_map]
    exact (List.map_congr_left fun x hx => finite_value (hxs x hx)).trans (List.map_id xs)
  rw [← sum_of_fits h, hback]

end Decimal

end Constat
