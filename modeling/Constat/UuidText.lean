import Mathlib.Data.List.Basic
import Constat.Orm

/-!
# UuidText

The text form of a UUID names it: two ids of 128 bits with one text are the same.
-/

namespace Constat

namespace Uuid

/-- The ids that 32 hex digits can write. -/
def bound : Nat := 16 ^ 32

/-- The hex digits of the text, without its dashes. -/
def digits (id : Uuid) : List Char :=
  (List.range 32).reverse.map fun i => Nat.digitChar (id / 16 ^ i % 16)

theorem digits_length (id : Uuid) : id.digits.length = 32 := by simp [digits]

theorem text_toList (id : Uuid) : (text id).toList =
    id.digits.take 8 ++ '-' :: ((id.digits.drop 8).take 4 ++ '-' :: ((id.digits.drop 12).take 4 ++
      '-' :: ((id.digits.drop 16).take 4 ++ '-' :: (id.digits.drop 20).take 12))) := by
  have hjoin : ∀ a b c d e : String, "-".intercalate [a, b, c, d, e] =
      a ++ "-" ++ b ++ "-" ++ c ++ "-" ++ d ++ "-" ++ e := fun _ _ _ _ _ => rfl
  have hdash : "-".toList = ['-'] := rfl
  rw [text, ← digits, hjoin]
  simp only [String.toList_append, String.toList_ofList, hdash, List.append_assoc,
    List.drop_zero, List.cons_append, List.nil_append]

/-- The text has the digits in their order. -/
theorem digits_of_text {a b : Uuid} (h : text a = text b) : a.digits = b.digits := by
  have hlist := congrArg String.toList h
  rw [text_toList, text_toList] at hlist
  have ha := digits_length a
  have hb := digits_length b
  obtain ⟨h₁, hlist⟩ := List.append_inj hlist (by simp [ha, hb])
  obtain ⟨h₂, hlist⟩ := List.append_inj (List.cons.inj hlist).2 (by simp [ha, hb])
  obtain ⟨h₃, hlist⟩ := List.append_inj (List.cons.inj hlist).2 (by simp [ha, hb])
  obtain ⟨h₄, hlist⟩ := List.append_inj (List.cons.inj hlist).2 (by simp [ha, hb])
  have h₅ := (List.cons.inj hlist).2
  have hsplit : ∀ l : List Char, l.length = 32 → l = l.take 8 ++ ((l.drop 8).take 4 ++
      ((l.drop 12).take 4 ++ ((l.drop 16).take 4 ++ (l.drop 20).take 12))) := by
    intro l hl
    have hlast : (l.drop 20).take 12 = l.drop 20 := List.take_of_length_le (by simp [hl])
    have hstep : ∀ n k : Nat, (l.drop n).take k ++ l.drop (n + k) = l.drop n := by
      intro n k
      rw [← List.drop_drop, List.take_append_drop]
    rw [hlast, hstep 16 4, hstep 12 4, hstep 8 4, List.take_append_drop]
  rw [hsplit a.digits ha, hsplit b.digits hb, h₁, h₂, h₃, h₄, h₅]

theorem digitChar_inj {a b : Nat} (ha : a < 16) (hb : b < 16)
    (h : Nat.digitChar a = Nat.digitChar b) : a = b := by
  have hall : ∀ a < 16, ∀ b < 16, Nat.digitChar a = Nat.digitChar b → a = b := by decide
  exact hall a ha b hb h

theorem digit_of_digits {a b : Uuid} (h : a.digits = b.digits) {i : Nat} (hi : i < 32) :
    a / 16 ^ i % 16 = b / 16 ^ i % 16 := by
  have hmap := List.map_inj_left.1 h i (by simpa using hi)
  exact digitChar_inj (Nat.mod_lt _ (by omega)) (Nat.mod_lt _ (by omega)) hmap

theorem text_inj {a b : Uuid} (ha : a < bound) (hb : b < bound) (h : text a = text b) : a = b := by
  have hmod : ∀ n ≤ 32, a % 16 ^ n = b % 16 ^ n := by
    intro n
    induction n with
    | zero => intro _; rw [Nat.pow_zero, Nat.mod_one, Nat.mod_one]
    | succ n ih =>
      intro hn
      have hdigit := digit_of_digits (digits_of_text h) (Nat.lt_of_succ_le hn)
      rw [Nat.mod_pow_succ, Nat.mod_pow_succ, ih (Nat.le_of_succ_le hn), hdigit]
  have hlast := hmod 32 (Nat.le_refl 32)
  rwa [← bound, Nat.mod_eq_of_lt ha, Nat.mod_eq_of_lt hb] at hlast

end Uuid

end Constat
