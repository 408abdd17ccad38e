import Mathlib.Order.Basic

/-!
# Lib.Breaker

A circuit breaker over a sequence of attempts that may fail: it counts consecutive failures, and
once the count has reached a threshold nothing is attempted any more, so the count stays. It is open
from the end of the first run of that many failures on (`open_iff`).
-/

namespace Breaker

/-- The count before attempt `i`. -/
def count (failing : Nat → Bool) (threshold : Nat) : Nat → Nat
  | 0 => 0
  | i + 1 =>
    let c := count failing threshold i
    if threshold ≤ c then c else if failing i then c + 1 else 0

/-- `threshold` consecutive failures end before `i`. -/
def AfterRun (failing : Nat → Bool) (threshold i : Nat) : Prop :=
  ∃ j ≤ i, j + threshold ≤ i ∧ ∀ k < threshold, failing (j + k) = true

instance (failing : Nat → Bool) (threshold i : Nat) :
    Decidable (AfterRun failing threshold i) :=
  inferInstanceAs (Decidable (∃ j ≤ i, j + threshold ≤ i ∧ ∀ k < threshold, _))

variable {failing : Nat → Bool} {threshold i : Nat}

theorem AfterRun.succ (h : AfterRun failing threshold i) : AfterRun failing threshold (i + 1) := by
  obtain ⟨j, hj, hend, hrun⟩ := h
  exact ⟨j, by omega, by omega, hrun⟩

/-- A run that ends at `i + 1` and not before is made of the attempts up to `i`. -/
theorem AfterRun.last (h : AfterRun failing threshold (i + 1))
    (hnot : ¬ AfterRun failing threshold i) :
    threshold ≤ i + 1 ∧ ∀ k ≤ i, i + 1 ≤ k + threshold → failing k = true := by
  obtain ⟨j, hj, hend, hrun⟩ := h
  have hlast : j + threshold = i + 1 := by
    by_contra hne
    exact hnot ⟨j, by omega, by omega, hrun⟩
  refine ⟨by omega, fun k hk hfrom => ?_⟩
  obtain ⟨d, rfl⟩ : ∃ d, k = j + d := ⟨k - j, by omega⟩
  exact hrun d (by omega)

/-- What the count says of the attempts before `i`. -/
inductive Counted (failing : Nat → Bool) (threshold i c : Nat) : Prop where
  /-- The last `c` attempts failed, the one before them did not. -/
  | closed (below : c < threshold) (begun : c ≤ i)
      (streak : ∀ k < i, i ≤ k + c → failing k = true)
      (broken : c < i → failing (i - c - 1) = false) (none : ¬ AfterRun failing threshold i)
  | opened (reached : threshold ≤ c) (some : AfterRun failing threshold i)

theorem counted (hpos : 1 ≤ threshold) (i : Nat) :
    Counted failing threshold i (count failing threshold i) := by
  induction i with
  | zero =>
    refine .closed hpos (Nat.le_refl 0) (fun k hk => by omega) (fun h => by omega) ?_
    rintro ⟨j, hj, hend, _⟩
    omega
  | succ i ih =>
    rw [count]
    generalize count failing threshold i = c at ih ⊢
    cases ih with
    | opened reached some => simpa only [if_pos reached] using .opened reached some.succ
    | closed below begun streak broken none =>
      simp only [if_neg (Nat.not_le.2 below)]
      cases hfailing : failing i with
      | false =>
        simp only [Bool.false_eq_true, if_false]
        refine .closed hpos (Nat.zero_le _) (fun k hk hfrom => by omega) (fun _ => hfailing) ?_
        intro hrun
        have htrue := (hrun.last none).2 i (Nat.le_refl i) (by omega)
        rw [hfailing] at htrue
        cases htrue
      | true =>
        simp only [if_true]
        have hstreak : ∀ k < i + 1, i + 1 ≤ k + (c + 1) → failing k = true := by
          intro k hk hfrom
          rcases Nat.lt_succ_iff_lt_or_eq.1 hk with hk | rfl
          · exact streak k hk (by omega)
          · exact hfailing
        by_cases hreached : threshold ≤ c + 1
        · refine .opened hreached ⟨i + 1 - threshold, by omega, by omega, fun k hk => ?_⟩
          exact hstreak _ (by omega) (by omega)
        · have hbroken : c + 1 < i + 1 → failing (i + 1 - (c + 1) - 1) = false := by
            intro h
            rw [show i + 1 - (c + 1) - 1 = i - c - 1 by omega]
            exact broken (by omega)
          refine .closed (by omega) (by omega) hstreak hbroken fun hrun => ?_
          obtain ⟨hlong, hall⟩ := hrun.last none
          -- the run would reach back over the attempt that did not fail
          have htrue := hall (i - c - 1) (by omega) (by omega)
          rw [broken (by omega)] at htrue
          cases htrue

theorem open_iff (hpos : 1 ≤ threshold) (i : Nat) :
    threshold ≤ count failing threshold i ↔ AfterRun failing threshold i := by
  have hcounted : Counted failing threshold i _ := counted hpos i
  rcases hcounted with ⟨below, _, _, _, none⟩ | ⟨reached, some⟩
  · exact iff_of_false (Nat.not_le.2 below) none
  · exact iff_of_true reached some

end Breaker
