import Mathlib.Data.List.Perm.Basic
import Mathlib.Data.List.Sort

/-!
# Lib.Paging

Pages of rows that a query orders by a key. Rows with one key may come in any order, and in another
order for the next page: an answer is any permutation of the rows in which the keys ascend.

* `Served`          — an answer of the query.
* `pages`           — the pages from the first on, each cut from an answer of its own.
* `Straddled`       — the rows of one key begin on one page and end on another.
* `pages_exact_iff` — whatever the answers, every row is on exactly one page iff no key is straddled.
-/

namespace Paging

variable {α κ : Type} [LinearOrder κ]

structure Served (key : α → κ) (rows out : List α) : Prop where
  perm : out.Perm rows
  ascending : out.Pairwise fun a b => key a ≤ key b

def page (limit offset : Nat) (out : List α) : List α := (out.drop offset).take limit

def pages (limit : Nat) (out : Nat → List α) (n : Nat) : List α :=
  (List.range n).flatMap fun k => page limit (k * limit) (out k)

/-- The rows before those of the key. -/
def below (key : α → κ) (rows : List α) (x : κ) : Nat := rows.countP fun r => key r < x

/-- The rows up to the last one of the key. -/
def upTo (key : α → κ) (rows : List α) (x : κ) : Nat := rows.countP fun r => key r ≤ x

def Straddled (key : α → κ) (rows : List α) (limit : Nat) : Prop :=
  ∃ r ∈ rows, below key rows (key r) / limit ≠ (upTo key rows (key r) - 1) / limit

instance (key : α → κ) (rows : List α) (limit : Nat) : Decidable (Straddled key rows limit) :=
  inferInstanceAs (Decidable (∃ r ∈ rows, _))

/-! ## Positions -/

section

variable {key : α → κ} {rows out : List α} {limit : Nat}

theorem Served.below_eq (h : Served key rows out) (x : κ) : below key out x = below key rows x :=
  h.perm.countP_eq _

theorem Served.upTo_eq (h : Served key rows out) (x : κ) : upTo key out x = upTo key rows x :=
  h.perm.countP_eq _

theorem key_le (h : out.Pairwise fun a b => key a ≤ key b) {i j : Nat} (hij : i ≤ j)
    (hj : j < out.length) : key out[i] ≤ key out[j] := by
  rcases Nat.lt_or_eq_of_le hij with hlt | rfl
  · exact List.pairwise_iff_getElem.1 h i j (by omega) hj hlt
  · exact le_refl _

/-- Rows from position `i` on that are not counted leave at most `i` that are. -/
theorem countP_le_of_drop {p : α → Bool} {i : Nat}
    (h : ∀ j, (hj : j < out.length) → i ≤ j → p out[j] = false) : out.countP p ≤ i := by
  have hrest : (out.drop i).countP p = 0 := by
    rw [List.countP_eq_zero]
    intro r hr
    obtain ⟨j, hj, rfl⟩ := List.mem_drop_iff_getElem.1 hr
    simp [h (i + j) (by omega) (by omega)]
  have hsplit : out.countP p = (out.take i).countP p + (out.drop i).countP p := by
    rw [← List.countP_append, List.take_append_drop]
  have hfirst : (out.take i).countP p ≤ (out.take i).length := List.countP_le_length
  rw [List.length_take] at hfirst
  omega

theorem lt_countP_of_take {p : α → Bool} {i : Nat} (hi : i < out.length)
    (h : ∀ j, (hj : j < out.length) → j ≤ i → p out[j] = true) : i < out.countP p := by
  have hfirst : (out.take (i + 1)).countP p = (out.take (i + 1)).length := by
    rw [List.countP_eq_length]
    intro r hr
    obtain ⟨j, hj, rfl⟩ := List.mem_take_iff_getElem.1 hr
    exact h j (by omega) (by omega)
  have hsplit : out.countP p = (out.take (i + 1)).countP p + (out.drop (i + 1)).countP p := by
    rw [← List.countP_append, List.take_append_drop]
  rw [List.length_take] at hfirst
  omega

/-- A row stands among those of its key. -/
theorem Served.position (h : Served key rows out) {i : Nat} (hi : i < out.length) :
    below key rows (key out[i]) ≤ i ∧ i < upTo key rows (key out[i]) := by
  rw [← h.below_eq, ← h.upTo_eq]
  constructor
  · refine countP_le_of_drop fun j hj hij => ?_
    simpa using key_le h.ascending hij hj
  · refine lt_countP_of_take hi fun j hj hji => ?_
    simpa using key_le h.ascending hji hi

/-- What stands among the rows of a key has that key. -/
theorem Served.key_eq (h : Served key rows out) {x : κ} {i : Nat} (hi : i < out.length)
    (hbelow : below key rows x ≤ i) (hupTo : i < upTo key rows x) : key out[i] = x := by
  rw [← h.below_eq] at hbelow
  rw [← h.upTo_eq] at hupTo
  rcases lt_trichotomy (key out[i]) x with hlt | heq | hgt
  · have : i < below key out x := lt_countP_of_take hi fun j hj hji => by
      simpa using lt_of_le_of_lt (key_le h.ascending hji hi) hlt
    omega
  · exact heq
  · have : upTo key out x ≤ i := countP_le_of_drop fun j hj hij => by
      simpa using lt_of_lt_of_le hgt (key_le h.ascending hij hj)
    omega

/-! ## No key is straddled -/

/-- The page that the rows of a key begin on. -/
def slot (key : α → κ) (rows : List α) (limit : Nat) (r : α) : Nat :=
  below key rows (key r) / limit

theorem Served.slot_eq (h : Served key rows out) (hwhole : ¬ Straddled key rows limit) {i : Nat}
    (hi : i < out.length) : slot key rows limit out[i] = i / limit := by
  obtain ⟨hfirst, hlast⟩ := h.position hi
  have hmem : out[i] ∈ rows := h.perm.mem_iff.1 (List.getElem_mem hi)
  have hsame : below key rows (key out[i]) / limit = (upTo key rows (key out[i]) - 1) / limit := by
    by_contra hne
    exact hwhole ⟨_, hmem, hne⟩
  have hlow : below key rows (key out[i]) / limit ≤ i / limit := Nat.div_le_div_right hfirst
  have hhigh : i / limit ≤ (upTo key rows (key out[i]) - 1) / limit :=
    Nat.div_le_div_right (by omega)
  rw [slot]
  omega

theorem div_eq_iff_block {i k : Nat} (hlimit : 0 < limit) :
    i / limit = k ↔ k * limit ≤ i ∧ i < k * limit + limit := by
  rw [Nat.div_eq_iff hlimit]
  omega

/-- A page has the rows whose keys begin on it. -/
theorem Served.page_eq (h : Served key rows out) (hlimit : 0 < limit)
    (hwhole : ¬ Straddled key rows limit) (k : Nat) :
    page limit (k * limit) out = out.filter fun r => slot key rows limit r = k := by
  have hsplit : out = out.take (k * limit) ++
      (page limit (k * limit) out ++ (out.drop (k * limit)).drop limit) := by
    rw [page, List.take_append_drop, List.take_append_drop]
  have hbefore : (out.take (k * limit)).filter (fun r => slot key rows limit r = k) = [] := by
    rw [List.filter_eq_nil_iff]
    intro r hr
    obtain ⟨i, hi, rfl⟩ := List.mem_take_iff_getElem.1 hr
    rw [decide_eq_true_eq, h.slot_eq hwhole, div_eq_iff_block hlimit]
    omega
  have hpage : (page limit (k * limit) out).filter (fun r => slot key rows limit r = k) =
      page limit (k * limit) out := by
    rw [List.filter_eq_self]
    intro r hr
    obtain ⟨i, hi, rfl⟩ := List.mem_take_iff_getElem.1 hr
    rw [List.length_drop] at hi
    rw [List.getElem_drop, decide_eq_true_eq, h.slot_eq hwhole, div_eq_iff_block hlimit]
    omega
  have hafter : ((out.drop (k * limit)).drop limit).filter
      (fun r => slot key rows limit r = k) = [] := by
    rw [List.filter_eq_nil_iff, List.drop_drop]
    intro r hr
    obtain ⟨i, hi, rfl⟩ := List.mem_drop_iff_getElem.1 hr
    rw [decide_eq_true_eq, h.slot_eq hwhole, div_eq_iff_block hlimit]
    omega
  rw [hsplit, List.filter_append, List.filter_append, hbefore, hafter, List.nil_append,
    List.append_nil, ← hsplit, hpage]

/-- Rows by a number that is below `n`. -/
theorem flatMap_filter_perm (f : α → Nat) (n : Nat) : ∀ {rows : List α}, (∀ r ∈ rows, f r < n) →
    ((List.range n).flatMap fun k => rows.filter fun r => f r = k).Perm rows := by
  induction n with
  | zero =>
    intro rows h
    cases rows with
    | nil => exact List.Perm.refl _
    | cons r rows => exact absurd (h r List.mem_cons_self) (Nat.not_lt_zero _)
  | succ n ih =>
    intro rows h
    have hbound : ∀ r ∈ rows.filter (fun r => f r < n), f r < n := by
      intro r hr
      simpa using (List.mem_filter.1 hr).2
    have hlow := ih hbound
    have hfirst : ((List.range n).flatMap fun k => (rows.filter fun r => f r < n).filter
        fun r => f r = k) = (List.range n).flatMap fun k => rows.filter fun r => f r = k := by
      refine List.flatMap_congr fun k hk => ?_
      rw [List.filter_filter]
      refine List.filter_congr fun r _ => ?_
      have := List.mem_range.1 hk
      grind
    have hrest : rows.filter (fun r => f r = n) = rows.filter fun r => !decide (f r < n) := by
      refine List.filter_congr fun r hr => ?_
      have := h r hr
      grind
    rw [hfirst] at hlow
    rw [List.range_succ, List.flatMap_append, List.flatMap_singleton, hrest]
    exact (hlow.append_right _).trans (List.filter_append_perm (fun r => decide (f r < n)) rows)

theorem pages_perm (hlimit : 0 < limit) (hwhole : ¬ Straddled key rows limit) {n : Nat}
    (hn : rows.length ≤ n * limit) {out : Nat → List α} (hout : ∀ k, Served key rows (out k)) :
    (pages limit out n).Perm rows := by
  have hslot : ∀ r ∈ rows, slot key rows limit r < n := by
    intro r hr
    obtain ⟨i, hi, rfl⟩ := List.getElem_of_mem ((hout 0).perm.mem_iff.2 hr)
    have hposition := ((hout 0).position hi).1
    have hlength := (hout 0).perm.length_eq
    rw [slot, Nat.div_lt_iff_lt_mul hlimit]
    omega
  refine List.Perm.trans ?_ (flatMap_filter_perm (slot key rows limit) n hslot)
  refine List.Perm.flatMap_left _ fun k _ => ?_
  rw [(hout k).page_eq hlimit hwhole]
  exact (hout k).perm.filter _

/-! ## A key that is straddled -/

theorem exists_served (key : α → κ) (rows : List α) : ∃ out, Served key rows out := by
  refine ⟨rows.mergeSort fun a b => key a ≤ key b, List.mergeSort_perm _ _, ?_⟩
  have htrans : ∀ a b c : α, decide (key a ≤ key b) = true → decide (key b ≤ key c) = true →
      decide (key a ≤ key c) = true := by
    intro a b c hab hbc
    rw [decide_eq_true_eq] at hab hbc ⊢
    exact le_trans hab hbc
  have htotal : ∀ a b : α, (decide (key a ≤ key b) || decide (key b ≤ key a)) = true := by
    intro a b
    simpa using le_total (key a) (key b)
  exact (List.pairwise_mergeSort htrans htotal rows).imp of_decide_eq_true

/-- Two rows of one key that stand side by side may come the other way round. -/
theorem Served.swap {u v : α} {before rest : List α} (h : Served key rows (before ++ u :: v :: rest))
    (huv : key u = key v) : Served key rows (before ++ v :: u :: rest) := by
  constructor
  · exact ((List.Perm.swap u v rest).append_left before).trans h.perm
  · have hsorted := h.ascending
    rw [List.pairwise_append] at hsorted ⊢
    obtain ⟨hbefore, hrest, hcross⟩ := hsorted
    refine ⟨hbefore, ?_, ?_⟩
    · simp only [List.pairwise_cons, List.mem_cons, forall_eq_or_imp] at hrest ⊢
      obtain ⟨⟨_, hu⟩, hv, hrest⟩ := hrest
      exact ⟨⟨huv.ge, hv⟩, hu, hrest⟩
    · intro r hr w hw
      refine hcross r hr w ?_
      simp only [List.mem_cons] at hw ⊢
      tauto

theorem mem_page {k i : Nat} {r : α} (hi : out[i]? = some r) (hfrom : k * limit ≤ i)
    (hto : i < k * limit + limit) : r ∈ page limit (k * limit) out := by
  rw [page, List.mem_iff_getElem?]
  refine ⟨i - k * limit, ?_⟩
  rw [List.getElem?_take_of_lt (by omega), List.getElem?_drop, Nat.add_sub_cancel' hfrom, hi]

/-- A row of a straddled key is served twice, at the end of one page and at the start of the next. -/
theorem not_pages_perm (hrows : rows.Nodup) (hlimit : 0 < limit)
    (hstraddled : Straddled key rows limit) {n : Nat} (hn : rows.length ≤ n * limit) :
    ∃ out, (∀ k, Served key rows (out k)) ∧ ¬ (pages limit out n).Perm rows := by
  obtain ⟨r, hr, hne⟩ := hstraddled
  obtain ⟨out, hout⟩ := exists_served key rows
  have hlength := hout.perm.length_eq
  obtain ⟨i, hi, rfl⟩ := List.getElem_of_mem (hout.perm.mem_iff.2 hr)
  obtain ⟨hfirst, hlast⟩ := hout.position hi
  have hbound : upTo key rows (key out[i]) ≤ rows.length := List.countP_le_length
  generalize hx : key out[i] = x at *
  generalize ha : below key rows x = a at *
  generalize hb : upTo key rows x = b at *
  -- the page the last row of the key is on starts within its rows
  obtain ⟨k, hk⟩ : ∃ k, k = (b - 1) / limit := ⟨_, rfl⟩
  have hkb : k * limit ≤ b - 1 := hk ▸ Nat.div_mul_le_self (b - 1) limit
  have hak : a / limit < k := by
    have : a / limit ≤ (b - 1) / limit := Nat.div_le_div_right (by omega)
    omega
  rw [Nat.div_lt_iff_lt_mul hlimit] at hak
  have hkn : k < n := by
    have : k * limit < n * limit := by omega
    exact Nat.lt_of_mul_lt_mul_right this
  obtain ⟨m, rfl⟩ : ∃ m, k = m + 1 := by
    cases k with
    | zero => omega
    | succ m => exact ⟨m, rfl⟩
  obtain ⟨c, hc⟩ : ∃ c, (m + 1) * limit = c + 1 := ⟨(m + 1) * limit - 1, by omega⟩
  have hcm : m * limit + limit = c + 1 := by rw [← hc, Nat.succ_mul]
  have hu : c < out.length := by omega
  have hv : c + 1 < out.length := by omega
  have hsplit : out = out.take c ++ out[c] :: out[c + 1] :: out.drop (c + 2) := by
    rw [← List.drop_eq_getElem_cons hv, ← List.drop_eq_getElem_cons hu, List.take_append_drop]
  have hkeys : key out[c] = key out[c + 1] := by
    have hfirstKey : key out[c] = x := hout.key_eq hu (by omega) (by omega)
    have hsecondKey : key out[c + 1] = x := hout.key_eq hv (by omega) (by omega)
    rw [hfirstKey, hsecondKey]
  obtain ⟨out', hout', hu'⟩ : ∃ out', Served key rows out' ∧ out'[c + 1]? = some out[c] := by
    refine ⟨out.take c ++ out[c + 1] :: out[c] :: out.drop (c + 2), ?_, ?_⟩
    · rw [hsplit] at hout
      exact hout.swap hkeys
    · have hmin : min c out.length = c := by omega
      rw [List.getElem?_append_right (by simp)]
      simp [hmin]
  refine ⟨fun j => if j = m then out else out', fun j => ?_, fun hperm => ?_⟩
  · show Served key rows (if j = m then out else out')
    split
    · exact hout
    · exact hout'
  · have hnodup := hperm.nodup_iff.2 hrows
    rw [pages, List.nodup_flatMap] at hnodup
    have hdisjoint := List.pairwise_iff_getElem.1 hnodup.2 m (m + 1) (by simp; omega)
      (by simp; omega) (by omega)
    simp only [List.getElem_range, Function.onFun, if_true, if_neg (Nat.succ_ne_self m)]
      at hdisjoint
    exact hdisjoint (mem_page (List.getElem?_eq_getElem hu) (by omega) (by omega))
      (mem_page hu' (by omega) (by omega))

/-- Rows without duplicates are on one page each, whatever the answers, iff the rows of each key are
on one page. -/
theorem pages_exact_iff (hrows : rows.Nodup) (hlimit : 0 < limit) {n : Nat}
    (hn : rows.length ≤ n * limit) :
    (∀ out : Nat → List α, (∀ k, Served key rows (out k)) → (pages limit out n).Perm rows) ↔
      ¬ Straddled key rows limit := by
  constructor
  · intro h hstraddled
    obtain ⟨out, hout, hne⟩ := not_pages_perm hrows hlimit hstraddled hn
    exact hne (h out hout)
  · intro hwhole out hout
    exact pages_perm hlimit hwhole hn hout

/-- More rows with the first key than a page has. -/
theorem straddled_of_first (hlimit : 0 < limit) {x : κ} (hfirst : ∀ r ∈ rows, x ≤ key r)
    (hmany : limit < rows.countP fun r => key r = x) : Straddled key rows limit := by
  have hpos : 0 < rows.countP fun r => key r = x := by omega
  obtain ⟨r, hr, hkey⟩ := List.countP_pos_iff.1 hpos
  obtain rfl := of_decide_eq_true hkey
  have hbelow : below key rows (key r) = 0 := by
    rw [below, List.countP_eq_zero]
    intro w hw
    simpa using hfirst w hw
  have hupTo : limit < upTo key rows (key r) := by
    refine lt_of_lt_of_le hmany (List.countP_mono_left fun w _ hw => ?_)
    rw [decide_eq_true_eq] at hw ⊢
    exact hw.le
  refine ⟨r, hr, ?_⟩
  have hpage : 1 ≤ (upTo key rows (key r) - 1) / limit := by
    rw [Nat.le_div_iff_mul_le hlimit]
    omega
  rw [hbelow, Nat.zero_div]
  omega

end

end Paging
