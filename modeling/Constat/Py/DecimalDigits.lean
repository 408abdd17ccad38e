import Mathlib.Algebra.Order.Field.Power
import Constat.Py.Decimal
import Constat.Py.Rounding

/-!
# Py.DecimalDigits

A decimal that the context has rounded has 28 digits at most, so rounding it again changes nothing:
the absolute value of a difference is never out of range where the difference is not
(`abs_of_sub`).
-/

namespace Constat

/-! ## The exponent of the first digit -/

theorem powInt_eq (base : Nat) (e : Int) : powInt base e = (base : Rat) ^ e := by
  unfold powInt
  split
  · rename_i he
    obtain ⟨n, rfl⟩ := Int.eq_ofNat_of_zero_le he
    simp
  · rename_i he
    obtain ⟨n, rfl⟩ : ∃ n : Nat, e = -n := ⟨(-e).toNat, by omega⟩
    simp

theorem powInt_ten_pos (e : Int) : 0 < powInt 10 e := by
  rw [powInt_eq]
  positivity

/-- As many digits as the number needs. -/
theorem toDigits_spec {n : Nat} (hn : 0 < n) :
    (10 : Rat) ^ (((Nat.toDigits 10 n).length : Int) - 1) ≤ n ∧
      (n : Rat) < 10 ^ ((Nat.toDigits 10 n).length : Int) := by
  have hpos : 0 < (Nat.toDigits 10 n).length := Nat.length_toDigits_pos
  have hlow : 10 ^ ((Nat.toDigits 10 n).length - 1) ≤ n := by
    by_contra hlt
    by_cases hone : (Nat.toDigits 10 n).length = 1
    · simp [hone] at hlt
      omega
    · have hle := (Nat.length_toDigits_le_iff (b := 10) (by omega) (by omega)).2 (not_le.1 hlt)
      omega
  have hhigh : n < 10 ^ (Nat.toDigits 10 n).length :=
    (Nat.length_toDigits_le_iff (by omega) hpos).1 le_rfl
  have hcast : ((Nat.toDigits 10 n).length : Int) - 1 =
      (((Nat.toDigits 10 n).length - 1 : Nat) : Int) := by omega
  rw [hcast, zpow_natCast, zpow_natCast]
  exact ⟨by exact_mod_cast hlow, by exact_mod_cast hhigh⟩

theorem ilog10_spec {q : Rat} (hq : 0 < q) :
    (10 : Rat) ^ ilog10 q ≤ q ∧ q < (10 : Rat) ^ (ilog10 q + 1) := by
  have hden : (0 : Rat) < q.den := by exact_mod_cast q.den_pos
  have hqeq : q = (q.num.natAbs : Rat) / q.den := by
    have hncast : ((q.num.natAbs : Nat) : Rat) = q.num := by
      rw [← Int.cast_natCast, Int.natAbs_of_nonneg (Rat.num_pos.2 hq).le]
    rw [hncast]
    exact (Rat.num_div_den q).symm
  obtain ⟨hnlow, hnhigh⟩ := toDigits_spec (Int.natAbs_pos.2 (Rat.num_pos.2 hq).ne')
  obtain ⟨hdlow, hdhigh⟩ := toDigits_spec q.den_pos
  set m : Int := ((Nat.toDigits 10 q.num.natAbs).length : Int) with hm
  set d : Int := ((Nat.toDigits 10 q.den).length : Int) with hd
  have hlow : (10 : Rat) ^ (m - d - 1) ≤ q := by
    rw [hqeq, le_div_iff₀ hden, show m - d - 1 = (m - 1) - d by ring, zpow_sub₀ (by norm_num)]
    calc (10 : Rat) ^ (m - 1) / 10 ^ d * q.den
        ≤ (10 : Rat) ^ (m - 1) / 10 ^ d * 10 ^ d := by gcongr
      _ = (10 : Rat) ^ (m - 1) := by field_simp
      _ ≤ q.num.natAbs := hnlow
  have hhigh : q < (10 : Rat) ^ (m - d + 1) := by
    rw [hqeq, div_lt_iff₀ hden, show m - d + 1 = m - (d - 1) by ring, zpow_sub₀ (by norm_num)]
    calc (q.num.natAbs : Rat) < 10 ^ m := hnhigh
      _ = (10 : Rat) ^ m / 10 ^ (d - 1) * 10 ^ (d - 1) := by field_simp
      _ ≤ (10 : Rat) ^ m / 10 ^ (d - 1) * q.den := by gcongr
  simp only [ilog10, ← hm, ← hd, powInt_eq]
  push_cast
  split
  · rename_i hlt
    exact ⟨hlow, by rwa [sub_add_cancel]⟩
  · rename_i hge
    exact ⟨not_lt.1 hge, hhigh⟩

namespace Decimal

/-! ## Rounded numbers -/

/-- The exponent of the last digit that the context keeps. -/
def lastExponent (q : Rat) : Int := max (ilog10 |q| - 27) (-1000026)

/-- 28 digits at most, in the range of the context. -/
def Rounded (r : Rat) : Prop :=
  |r| < powInt 10 1000000 ∧
    ∃ n e : Int, r = n * (10 : Rat) ^ e ∧ |n| ≤ 10 ^ 28 ∧ -1000026 ≤ e

theorem rounded_abs {r : Rat} (h : Rounded r) : Rounded |r| := by
  obtain ⟨hsmall, n, e, hr, hn, he⟩ := h
  refine ⟨by rwa [abs_abs], |n|, e, ?_, by rwa [abs_abs], he⟩
  have hten : (0 : Rat) < 10 ^ e := by positivity
  rw [hr, abs_mul, abs_of_pos hten]
  push_cast
  rfl

theorem ilog10_le {r : Rat} {n e : Int} (hr : r = n * (10 : Rat) ^ e) (hn : |n| ≤ 10 ^ 28)
    (hpos : 0 < |r|) : ilog10 |r| ≤ 28 + e := by
  have hten : (0 : Rat) < 10 ^ e := by positivity
  have habs : |r| = |(n : Rat)| * 10 ^ e := by rw [hr, abs_mul, abs_of_pos hten]
  have hncast : |(n : Rat)| ≤ 10 ^ (28 : Int) := by exact_mod_cast hn
  have hle : (10 : Rat) ^ ilog10 |r| ≤ 10 ^ (28 + e) := by
    calc (10 : Rat) ^ ilog10 |r| ≤ |r| := (ilog10_spec hpos).1
      _ = |(n : Rat)| * 10 ^ e := habs
      _ ≤ 10 ^ (28 : Int) * 10 ^ e := by gcongr
      _ = 10 ^ (28 + e) := (zpow_add₀ (by norm_num) 28 e).symm
  exact (zpow_le_zpow_iff_right₀ (by norm_num)).1 hle

/-- In units of the last digit that the context keeps, a rounded number is whole. -/
theorem whole_of_rounded {r : Rat} (h : Rounded r) (hzero : r ≠ 0) :
    ∃ k : Int, r / powInt 10 (lastExponent r) = k := by
  obtain ⟨_, n, e, hr, hn, he⟩ := h
  have hpos : 0 < |r| := abs_pos.2 hzero
  have hexp := ilog10_le hr hn hpos
  rw [powInt_eq]
  push_cast
  by_cases hle : lastExponent r ≤ e
  · refine ⟨n * 10 ^ (e - lastExponent r).toNat, ?_⟩
    have hsub : ((e - lastExponent r).toNat : Int) = e - lastExponent r := by omega
    have hpow : (10 : Rat) ^ (e - lastExponent r).toNat = 10 ^ e / 10 ^ lastExponent r := by
      rw [← zpow_natCast, hsub, zpow_sub₀ (by norm_num)]
    push_cast
    rw [hpow, hr, mul_div_assoc]
  · -- the digits are a one and zeros, and the last zero moves into the exponent
    unfold lastExponent at hle ⊢
    have heq : max (ilog10 |r| - 27) (-1000026) = e + 1 := by omega
    have hilog : ilog10 |r| = 28 + e := by omega
    have hmax : |n| = 10 ^ 28 := by
      have hten : (0 : Rat) < 10 ^ e := by positivity
      have hlow := (ilog10_spec hpos).1
      rw [hilog, zpow_add₀ (by norm_num), hr, abs_mul, abs_of_pos hten] at hlow
      have hge : (10 : Rat) ^ (28 : Int) ≤ |(n : Rat)| := le_of_mul_le_mul_right hlow hten
      exact le_antisymm hn (by exact_mod_cast hge)
    obtain ⟨k, hk⟩ : ∃ k : Int, n = 10 * k := by
      rcases (abs_eq (by norm_num)).1 hmax with h | h
      · exact ⟨10 ^ 27, by rw [h]; norm_num⟩
      · exact ⟨-10 ^ 27, by rw [h]; norm_num⟩
    refine ⟨k, ?_⟩
    rw [heq, hr, hk, zpow_add₀ (by norm_num)]
    push_cast
    field_simp

/-- Rounding a rounded number changes nothing. -/
theorem fit_of_rounded {r : Rat} (h : Rounded r) : fit r = .ok (.finite r) := by
  by_cases hzero : r = 0
  · simp [fit, hzero, zero]
  obtain ⟨k, hk⟩ := whole_of_rounded h hzero
  have hback : (k : Rat) * powInt 10 (lastExponent r) = r := by
    rw [← hk, div_mul_cancel₀ _ (powInt_ten_pos _).ne']
  unfold lastExponent at hk hback
  simp only [fit, if_neg hzero, hk, roundHalfEven_int, hback, if_neg (not_le.2 h.1)]

theorem rounded_of_fit {q r : Rat} (h : fit q = .ok (.finite r)) : Rounded r := by
  unfold fit at h
  simp only at h
  by_cases hzero : q = 0
  · rw [if_pos hzero] at h
    obtain rfl : r = 0 := (Decimal.finite.inj (Except.ok.inj h)).symm
    exact ⟨by rw [abs_zero]; exact powInt_ten_pos _, 0, 0, by simp, by simp, by omega⟩
  · rw [if_neg hzero] at h
    set e := max (ilog10 |q| - 27) (-1000026) with he
    split at h
    · cases h
    · rename_i hsmall
      obtain rfl := Decimal.finite.inj (Except.ok.inj h)
      refine ⟨not_le.1 hsmall, roundHalfEven (q / powInt 10 e), e, by rw [powInt_eq]; rfl, ?_,
        by omega⟩
      have hten := powInt_ten_pos e
      have hbound : |q / powInt 10 e| ≤ 10 ^ 28 := by
        rw [abs_div, abs_of_pos hten, div_le_iff₀ hten]
        calc |q| ≤ 10 ^ (ilog10 |q| + 1) := (ilog10_spec (abs_pos.2 hzero)).2.le
          _ ≤ 10 ^ (28 + e) := zpow_le_zpow_right₀ (by norm_num) (by omega)
          _ = 10 ^ 28 * powInt 10 e := by
            rw [zpow_add₀ (by norm_num), powInt_eq]
            norm_num
      obtain ⟨hge, hle⟩ := abs_le.1 hbound
      have hupper := roundHalfEven_mono (q := ((10 ^ 28 : Int) : Rat)) (by exact_mod_cast hle)
      have hlower := roundHalfEven_mono (p := ((-10 ^ 28 : Int) : Rat)) (by exact_mod_cast hge)
      rw [roundHalfEven_int] at hupper hlower
      exact abs_le.2 ⟨hlower, hupper⟩

/-- A difference of finite numbers has an absolute value. -/
theorem abs_of_sub {a b d : Decimal} (ha : a.isFinite = true) (hb : b.isFinite = true)
    (h : sub a b = .ok d) : ∃ d', abs d = .ok d' := by
  cases a with
  | finite p =>
    cases b with
    | finite q =>
      have hfit : fit (p + -q) = .ok d := h
      cases d with
      | finite r => exact ⟨_, fit_of_rounded (rounded_abs (rounded_of_fit hfit))⟩
      | inf s => cases fit_finite hfit
      | nan s => cases fit_finite hfit
    | inf s => cases hb
    | nan s => cases hb
  | inf s => cases ha
  | nan s => cases ha

end Decimal

end Constat
