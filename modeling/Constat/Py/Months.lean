import Mathlib.Data.List.Basic
import Mathlib.Order.Monotone.Basic
import Constat.Py.Calendar

/-!
# Py.Months

The month a date falls in. `ymd` counts whole cycles of years off an ordinal, and then picks the
last month that has begun; a later date is never in an earlier month (`Date.month_mono`). Months are
in the order of their `index`, and the label `YYYY-MM` tells them apart (`Month.label_inj`).
-/

namespace Constat

namespace Date

theorem daysBeforeYear_mono {y y' : Int} (h : y ≤ y') : daysBeforeYear y ≤ daysBeforeYear y' := by
  simp only [daysBeforeYear]
  omega

/-- The days before a year by its cycles of 400, 100, 4 and 1 years. -/
theorem daysBeforeYear_cycles {a b c e : Int} (hb : 0 ≤ b ∧ b ≤ 3) (hc : 0 ≤ c ∧ c ≤ 24)
    (he : 0 ≤ e ∧ e ≤ 3) : daysBeforeYear (a * 400 + b * 100 + c * 4 + e + 1) =
      146097 * a + 36524 * b + 1461 * c + 365 * e := by
  have h4 : (a * 400 + b * 100 + c * 4 + e + 1 - 1) / 4 = a * 100 + b * 25 + c := by omega
  have h100 : (a * 400 + b * 100 + c * 4 + e + 1 - 1) / 100 = a * 4 + b := by omega
  have h400 : (a * 400 + b * 100 + c * 4 + e + 1 - 1) / 400 = a := by omega
  simp only [daysBeforeYear]
  rw [h4, h100, h400]
  omega

/-- The days before the year that follows: the last of four years is leap, unless it is the last of
a hundred that are not the last of four hundred. -/
theorem daysBeforeYear_next {a b c e : Int} (hb : 0 ≤ b ∧ b ≤ 3) (hc : 0 ≤ c ∧ c ≤ 24)
    (he : 0 ≤ e ∧ e ≤ 3) : daysBeforeYear (a * 400 + b * 100 + c * 4 + e + 1 + 1) =
      146097 * a + 36524 * b + 1461 * c + 365 * (e + 1) +
        if e = 3 ∧ (c < 24 ∨ b = 3) then 1 else 0 := by
  have h4 : (a * 400 + b * 100 + c * 4 + e + 1 + 1 - 1) / 4 =
      a * 100 + b * 25 + c + if e = 3 then 1 else 0 := by split <;> omega
  have h100 : (a * 400 + b * 100 + c * 4 + e + 1 + 1 - 1) / 100 =
      a * 4 + b + if e = 3 ∧ c = 24 then 1 else 0 := by split <;> omega
  have h400 : (a * 400 + b * 100 + c * 4 + e + 1 + 1 - 1) / 400 =
      a + if e = 3 ∧ c = 24 ∧ b = 3 then 1 else 0 := by split <;> omega
  simp only [daysBeforeYear]
  rw [h4, h100, h400]
  split_ifs <;> omega

/-- The last month of a year that has begun `k` days into it. -/
def monthIn (y k : Int) : Nat :=
  ([12, 11, 10, 9, 8, 7, 6, 5, 4, 3, 2].find? fun m => daysBeforeMonth y m ≤ k).getD 1

/-- A date is in the year that `ymd` gives, and in the month that has begun. -/
theorem ymd_spec (d : Date) : daysBeforeYear d.ymd.1 < d.ordinal ∧
    d.ordinal ≤ daysBeforeYear (d.ymd.1 + 1) ∧
      d.ymd.2.1 = monthIn d.ymd.1 (d.ordinal - 1 - daysBeforeYear d.ymd.1) := by
  obtain ⟨a, ha⟩ : ∃ a, (d.ordinal - 1) / 146097 = a := ⟨_, rfl⟩
  obtain ⟨n₁, hn₁⟩ : ∃ n₁, (d.ordinal - 1) % 146097 = n₁ := ⟨_, rfl⟩
  obtain ⟨b, hb⟩ : ∃ b, cycles n₁ 36524 3 = b := ⟨_, rfl⟩
  obtain ⟨c, hc⟩ : ∃ c, (n₁ - b * 36524) / 1461 = c := ⟨_, rfl⟩
  obtain ⟨n₂, hn₂⟩ : ∃ n₂, (n₁ - b * 36524) % 1461 = n₂ := ⟨_, rfl⟩
  obtain ⟨e, he⟩ : ∃ e, cycles n₂ 365 3 = e := ⟨_, rfl⟩
  have hyear : d.ymd.1 = a * 400 + b * 100 + c * 4 + e + 1 := by
    simp only [ymd, ha, hn₁, hb, hc, hn₂, he]
  have hmonth : d.ymd.2.1 = monthIn d.ymd.1 (n₂ - e * 365) := by
    simp only [ymd, monthIn, ha, hn₁, hb, hc, hn₂, he]
  simp only [cycles] at hb he
  have hb' : 0 ≤ b ∧ b ≤ 3 := by omega
  have hc' : 0 ≤ c ∧ c ≤ 24 := by omega
  have he' : 0 ≤ e ∧ e ≤ 3 := by omega
  have hfirst : daysBeforeYear d.ymd.1 = 146097 * a + 36524 * b + 1461 * c + 365 * e := by
    rw [hyear, daysBeforeYear_cycles hb' hc' he']
  have hrest : d.ordinal - 1 - daysBeforeYear d.ymd.1 = n₂ - e * 365 := by omega
  refine ⟨by omega, ?_, by rw [hrest, hmonth]⟩
  rw [hyear, daysBeforeYear_next hb' hc' he']
  split <;> omega

theorem year_mono {d d' : Date} (h : d ≤ d') : d.ymd.1 ≤ d'.ymd.1 := by
  by_contra hlt
  have hyears := daysBeforeYear_mono (Int.add_one_le_of_lt (not_le.1 hlt))
  have hd := (ymd_spec d).1
  have hd' := (ymd_spec d').2.1
  have hle : d.ordinal ≤ d'.ordinal := h
  omega

/-- In a list that descends nothing that is wanted is past what is found. -/
theorem le_of_find?_descending {p : Nat → Bool} {ms : List Nat} (hms : ms.Pairwise (· > ·))
    {m m' : Nat} (hfind : ms.find? p = some m) (hm' : m' ∈ ms) (hp : p m' = true) : m' ≤ m := by
  induction ms with
  | nil => cases hm'
  | cons x ms ih =>
    obtain ⟨hx, hms⟩ := List.pairwise_cons.1 hms
    rw [List.find?_cons] at hfind
    split at hfind
    · cases hfind
      rcases List.mem_cons.1 hm' with rfl | hm'
      · exact Nat.le_refl _
      · exact Nat.le_of_lt (hx m' hm')
    · rename_i hnot
      rcases List.mem_cons.1 hm' with rfl | hm'
      · rw [hnot] at hp
        cases hp
      · exact ih hms hfind hm'

theorem monthIn_bounds (y k : Int) : 1 ≤ monthIn y k ∧ monthIn y k ≤ 12 := by
  simp only [monthIn]
  cases hfind : [12, 11, 10, 9, 8, 7, 6, 5, 4, 3, 2].find? fun m => daysBeforeMonth y m ≤ k with
  | none => decide
  | some m =>
    have hall : ∀ m ∈ [12, 11, 10, 9, 8, 7, 6, 5, 4, 3, 2], 1 ≤ m ∧ m ≤ 12 := by decide
    exact hall m (List.mem_of_find?_eq_some hfind)

theorem monthIn_mono {y k k' : Int} (h : k ≤ k') : monthIn y k ≤ monthIn y k' := by
  simp only [monthIn]
  cases hfind : [12, 11, 10, 9, 8, 7, 6, 5, 4, 3, 2].find? fun m => daysBeforeMonth y m ≤ k with
  | none => exact (monthIn_bounds y k').1
  | some m =>
    have hmem := List.mem_of_find?_eq_some hfind
    have hbegun : daysBeforeMonth y m ≤ k := by simpa using List.find?_some hfind
    have hbegun' : decide (daysBeforeMonth y m ≤ k') = true := decide_eq_true (hbegun.trans h)
    cases hfind' : [12, 11, 10, 9, 8, 7, 6, 5, 4, 3, 2].find? fun m =>
        daysBeforeMonth y m ≤ k' with
    | none =>
      exact absurd hbegun' (List.find?_eq_none.1 hfind' m hmem)
    | some m' => exact le_of_find?_descending (by decide) hfind' hmem hbegun'

end Date

/-! ## Months -/

structure Month where
  year : Int
  number : Nat
  pos : 1 ≤ number
  le : number ≤ 12

namespace Month

theorem ext {m m' : Month} (hy : m.year = m'.year) (hn : m.number = m'.number) : m = m' := by
  cases m; cases m'
  simp only at hy hn
  subst hy hn
  rfl

instance : DecidableEq Month := fun m m' =>
  decidable_of_iff (m.year = m'.year ∧ m.number = m'.number)
    ⟨fun h => ext h.1 h.2, fun h => h ▸ ⟨rfl, rfl⟩⟩

/-- Months counted through. -/
def index (m : Month) : Int := 12 * m.year + m.number

instance : LT Month := ⟨fun m m' => m.index < m'.index⟩
instance : LE Month := ⟨fun m m' => m.index ≤ m'.index⟩

theorem index_inj {m m' : Month} (h : m.index = m'.index) : m = m' := by
  have := m.pos
  have := m.le
  have := m'.pos
  have := m'.le
  simp only [index] at h
  exact ext (by omega) (by omega)

def ofIndex (i : Int) : Month where
  year := (i - 1) / 12
  number := ((i - 1) % 12).toNat + 1
  pos := Nat.le_add_left 1 _
  le := by omega

@[simp] theorem index_ofIndex (i : Int) : (ofIndex i).index = i := by
  simp only [index, ofIndex]
  omega

/-- `f"{year:04d}-{month:02d}"`. -/
def labelOf (year : Int) (month : Nat) : String :=
  (if year < 0 then "-" ++ zeroPad 3 year.natAbs else zeroPad 4 year.toNat) ++
    ("-" ++ zeroPad 2 month)

def label (m : Month) : String := labelOf m.year m.number

end Month

def Date.month (d : Date) : Month where
  year := d.ymd.1
  number := d.ymd.2.1
  pos := by rw [(Date.ymd_spec d).2.2]; exact (Date.monthIn_bounds _ _).1
  le := by rw [(Date.ymd_spec d).2.2]; exact (Date.monthIn_bounds _ _).2

theorem Date.month_mono {d d' : Date} (h : d ≤ d') : d.month ≤ d'.month := by
  change 12 * d.ymd.1 + (d.ymd.2.1 : Int) ≤ 12 * d'.ymd.1 + (d'.ymd.2.1 : Int)
  have hm := d.month.pos
  have hm' := d'.month.pos
  have hle := d.month.le
  have hnumber : d.month.number = d.ymd.2.1 := rfl
  have hnumber' : d'.month.number = d'.ymd.2.1 := rfl
  rcases Int.lt_or_eq_of_le (Date.year_mono h) with hlt | heq
  · omega
  · have hmonth : d.ymd.2.1 ≤ d'.ymd.2.1 := by
      rw [(Date.ymd_spec d).2.2, (Date.ymd_spec d').2.2, heq]
      have hordinal : d.ordinal ≤ d'.ordinal := h
      exact Date.monthIn_mono (by omega)
    omega

/-! ## Labels -/

theorem ofDigitChars_zeroPad (width n : Nat) :
    Nat.ofDigitChars 10 (zeroPad width n).toList 0 = n := by
  simp [zeroPad, Nat.ofDigitChars_append]

theorem zeroPad_inj {width width' n n' : Nat} (h : zeroPad width n = zeroPad width' n') :
    n = n' := by
  rw [← ofDigitChars_zeroPad width n, h, ofDigitChars_zeroPad]

theorem zeroPad_digits {width n : Nat} : ∀ c ∈ (zeroPad width n).toList, c.isDigit = true := by
  intro c hc
  simp only [zeroPad, String.toList_append, String.toList_ofList, List.mem_append] at hc
  rcases hc with hc | hc
  · rw [(List.mem_replicate.1 hc).2]
    rfl
  · have hdigit : c ∈ Nat.toDigits 10 n := by simpa using hc
    exact Nat.isDigit_of_mem_toDigits (by omega) (by omega) hdigit

theorem zeroPad_length {width n : Nat} (h : n < 10 ^ width) (hpos : 0 < width) :
    (zeroPad width n).toList.length = width := by
  have hlen := (Nat.length_toDigits_le_iff (b := 10) (by omega) hpos).2 h
  simp only [zeroPad, String.toList_append, String.toList_ofList, List.length_append,
    List.length_replicate]
  simp only [Nat.toString_eq_repr, Nat.toList_repr]
  omega

theorem Month.label_inj {m m' : Month} (h : m.label = m'.label) : m = m' := by
  have hlist := congrArg String.toList h
  simp only [label, labelOf, String.toList_append] at hlist
  have htwo : ∀ m : Month, (zeroPad 2 m.number).toList.length = 2 := fun m =>
    zeroPad_length (by have := m.le; omega) (by omega)
  obtain ⟨hyear, hmonth⟩ := List.append_inj' hlist (by simp [htwo])
  refine Month.ext ?_ ?_
  · have hsign : ∀ {w n : Nat} {t : List Char}, (zeroPad w n).toList ≠ '-' :: t := by
      intro w n t heq
      have hdash : '-' ∈ (zeroPad w n).toList := by
        rw [heq]
        exact List.mem_cons_self
      exact absurd (zeroPad_digits _ hdash) (by decide)
    split at hyear <;> split at hyear
    · have hdigits : (zeroPad 3 m.year.natAbs).toList = (zeroPad 3 m'.year.natAbs).toList := by
        simpa using hyear
      have hpad := zeroPad_inj (String.toList_inj.1 hdigits)
      omega
    · exact absurd hyear.symm (by simpa using hsign)
    · exact absurd hyear (by simpa using hsign)
    · have hpad := zeroPad_inj (String.toList_inj.1 hyear)
      omega
  · have hpad := List.append_cancel_left hmonth
    exact zeroPad_inj (String.toList_inj.1 hpad)

end Constat
