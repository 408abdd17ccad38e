import Mathlib.Data.List.Sort
import Mathlib.Data.List.Dedup
import Mathlib.Data.List.Pairwise
import Constat.Lib.Loop
import Constat.Py.Months

/-!
# Focus.Coverage

`repositories/focus_coverage.py`: per account, the months without a period between the first and the
last period start. A period covers the month it starts in, and no other.

* `monthLoop`              — the enumeration of the months; it may run out of fuel.
* `computeFocusCoverage`   — the coverage of every account that has charges.
* `Exact`                  — what is missing is what no period starts in, and nothing counts twice.
* `coverage_exact`         — with fuel enough every account with charges is reported, exactly.
-/

namespace Constat

namespace Focus

namespace Coverage

/-- A billing period by its start and its end. -/
abbrev Period := Date × Date

structure AccountCoverage where
  accountId : Uuid
  periods : List Period
  coveredMonths : Nat
  missingMonths : List String
  stale : Bool
  firstPeriod : Option Date
  lastPeriod : Option Date
deriving DecidableEq

def staleAfterDays : Int := 45

/-! ## Months -/

/-- The `while` loop of `_month_labels` from a year and a month on. -/
def monthLoop : Nat → Int → Nat → Int × Nat → List String → Option (List String)
  | 0, _, _, _, _ => none
  | fuel + 1, year, month, last, labels =>
    if year < last.1 ∨ (year = last.1 ∧ month ≤ last.2) then
      let labels := labels ++ [Month.labelOf year month]
      if month + 1 = 13 then monthLoop fuel (year + 1) 1 last labels
      else monthLoop fuel year (month + 1) last labels
    else some labels

def monthLabels (fuel : Nat) (first last : Date) : Option (List String) :=
  let (year, month, _) := first.ymd
  let (lastYear, lastMonth, _) := last.ymd
  monthLoop fuel year month (lastYear, lastMonth) []

/-- The months from `m` to `last`. -/
def span (m last : Month) : List Month :=
  (List.range (last.index + 1 - m.index).toNat).map fun i : Nat => Month.ofIndex (m.index + i)

theorem mem_span {m last x : Month} : x ∈ span m last ↔ m ≤ x ∧ x ≤ last := by
  change x ∈ span m last ↔ m.index ≤ x.index ∧ x.index ≤ last.index
  simp only [span, List.mem_map, List.mem_range]
  constructor
  · rintro ⟨i, hi, rfl⟩
    rw [Month.index_ofIndex]
    omega
  · rintro ⟨hle, hlast⟩
    refine ⟨(x.index - m.index).toNat, by omega, Month.index_inj ?_⟩
    rw [Month.index_ofIndex]
    omega

theorem span_sorted (m last : Month) : (span m last).Pairwise (· < ·) := by
  refine List.pairwise_map.2 (List.pairwise_lt_range.imp fun {i j} hij => ?_)
  change (Month.ofIndex (m.index + i)).index < (Month.ofIndex (m.index + j)).index
  rw [Month.index_ofIndex, Month.index_ofIndex]
  omega

theorem span_length (m last : Month) : (span m last).length = (last.index + 1 - m.index).toNat := by
  simp [span]

theorem span_nil {m last : Month} (h : last.index < m.index) : span m last = [] := by
  rw [← List.length_eq_zero_iff, span_length]
  omega

theorem span_cons {m last next : Month} (h : m.index ≤ last.index)
    (hnext : next.index = m.index + 1) : span m last = m :: span next last := by
  have hlen : (last.index + 1 - m.index).toNat = (last.index + 1 - next.index).toNat + 1 := by
    omega
  have hfirst : Month.ofIndex (m.index + (0 : Nat)) = m := Month.index_inj (by simp)
  simp only [span, hlen, List.range_succ_eq_map, List.map_cons, List.map_map, hfirst]
  congr 1
  refine List.map_congr_left fun i _ => ?_
  rw [Function.comp, hnext]
  congr 1
  push_cast
  omega

/-- The order of the loop is the order of the months. -/
theorem before_iff (m last : Month) :
    (m.year < last.year ∨ (m.year = last.year ∧ m.number ≤ last.number)) ↔
      m.index ≤ last.index := by
  have := m.pos
  have := m.le
  have := last.pos
  have := last.le
  simp only [Month.index]
  omega

/-- The loop ends, with the labels of the months that were left. -/
theorem monthLoop_span (last : Month) : ∀ (fuel : Nat) (m : Month) (labels : List String),
    (last.index + 1 - m.index).toNat < fuel →
      monthLoop fuel m.year m.number (last.year, last.number) labels =
        some (labels ++ (span m last).map Month.label) := by
  intro fuel
  induction fuel with
  | zero => intro m labels hfuel; exact absurd hfuel (Nat.not_lt_zero _)
  | succ fuel ih =>
    intro m labels hfuel
    rw [monthLoop]
    by_cases hle : m.index ≤ last.index
    · rw [if_pos ((before_iff m last).2 hle)]
      by_cases hlast : m.number + 1 = 13
      · let next : Month := ⟨m.year + 1, 1, Nat.le_refl 1, by omega⟩
        have hnext : next.index = m.index + 1 := by
          simp only [next, Month.index]
          omega
        rw [if_pos hlast, ih next _ (by omega), span_cons hle hnext, List.append_assoc]
        rfl
      · let next : Month := ⟨m.year, m.number + 1, by omega, by have := m.le; omega⟩
        have hnext : next.index = m.index + 1 := by
          simp only [next, Month.index]
          omega
        rw [if_neg hlast, ih next _ (by omega), span_cons hle hnext, List.append_assoc]
        rfl
    · rw [if_neg fun h => hle ((before_iff m last).1 h), span_nil (not_le.1 hle)]
      simp

theorem monthLabels_span {fuel : Nat} {first last : Date}
    (h : (last.month.index + 1 - first.month.index).toNat < fuel) :
    monthLabels fuel first last = some ((span first.month last.month).map Month.label) :=
  monthLoop_span last.month fuel first.month [] h

/-! ## Coverage -/

/-- The order of two periods as tuples. -/
def before (p q : Period) : Prop :=
  p.1.ordinal < q.1.ordinal ∨ (p.1.ordinal = q.1.ordinal ∧ p.2.ordinal ≤ q.2.ordinal)

instance : DecidableRel before := fun _ _ => inferInstanceAs (Decidable (_ ∨ _))

instance : Std.Total before := ⟨fun _ _ => by unfold before; omega⟩

instance : IsTrans Period before := ⟨fun _ _ _ => by unfold before; omega⟩

theorem start_le {p q : Period} (h : before p q) : p.1 ≤ q.1 := by
  change p.1.ordinal ≤ q.1.ordinal
  unfold before at h
  omega

def startLabel (start : Date) : String :=
  let (year, month, _) := start.ymd
  Month.labelOf year month

def latest (d : Date) (ds : List Date) : Date := ds.foldl (fun a b => if a < b then b else a) d

/-- The coverage of the sorted periods `p :: ps`, the months of whose span are `expected`. -/
def coverageWith (today : Date) (accountId : Uuid) (p : Period) (ps : List Period)
    (expected : List String) : AccountCoverage :=
  let covered := ((p :: ps).map fun q => startLabel q.1).dedup
  let lastEnd := latest p.2 (ps.map Prod.snd)
  { accountId := accountId
    periods := p :: ps
    coveredMonths := covered.length
    missingMonths := expected.filter (· ∉ covered)
    stale := staleAfterDays < today.daysSince lastEnd
    firstPeriod := some p.1
    lastPeriod := some lastEnd }

/-- The coverage of one account from its sorted periods; there is one at least. -/
def coverageOf (fuel : Nat) (today : Date) (accountId : Uuid) (periods : List Period) :
    Option AccountCoverage :=
  match periods with
  | [] => none
  | p :: ps => (monthLabels fuel p.1 ((p :: ps).getLast (List.cons_ne_nil p ps)).1).map
      (coverageWith today accountId p ps)

/-- The rows of the `SELECT DISTINCT`. -/
def coverageRows (s : Store) : List (Uuid × Period) :=
  (s.focusCharges.rows.map fun r => (r.accountId, r.periodStart, r.periodEnd)).dedup

/-- `periods_by_account`; a set is the list of what was added to it. -/
def periodsByAccount (s : Store) : Dict Uuid (List (Uuid × Period)) :=
  (coverageRows s).foldl (fun d row => d.update row.1 fun o => o.getD [] ++ [row]) .empty

def sortedPeriods (rows : List (Uuid × Period)) : List Period :=
  (rows.map Prod.snd).dedup.insertionSort (before · ·)

def computeFocusCoverage (fuel : Nat) (s : Store) (today : Date) : Option (List AccountCoverage) :=
  ((periodsByAccount s).items.insertionSort fun p q => Uuid.text p.1 ≤ Uuid.text q.1).mapM
    fun p => coverageOf fuel today p.1 (sortedPeriods p.2)

/-! ## Exactness -/

/-- When the stored periods of an account start. -/
def starts (s : Store) (account : Uuid) : List Date :=
  (s.focusCharges.rows.filter fun r => r.accountId = account).map (·.periodStart)

/-- The coverage of an account whose periods start at `starts`: the missing months are those between
the first and the last start that have none, in their order, and with the covered ones they make up
the span. -/
def Exact (starts : List Date) (c : AccountCoverage) : Prop :=
  ∃ first ∈ starts, ∃ last ∈ starts, (∀ d ∈ starts, first ≤ d ∧ d ≤ last) ∧
    (∃ months : List Month, months.Pairwise (· < ·) ∧
      (∀ m, m ∈ months ↔ (first.month ≤ m ∧ m ≤ last.month) ∧ ∀ d ∈ starts, d.month ≠ m) ∧
      c.missingMonths = months.map Month.label) ∧
    (c.coveredMonths + c.missingMonths.length : Int) =
      last.month.index + 1 - first.month.index

theorem mem_startLabels {periods : List Period} {m : Month} :
    m.label ∈ (periods.map fun q => startLabel q.1).dedup ↔ ∃ q ∈ periods, q.1.month = m := by
  rw [List.mem_dedup, List.mem_map]
  constructor
  · rintro ⟨q, hq, hlabel⟩
    exact ⟨q, hq, Month.label_inj hlabel⟩
  · rintro ⟨q, hq, rfl⟩
    exact ⟨q, hq, rfl⟩

/-- Every label of a month in which a period starts is that of a month of the span, and
conversely. -/
theorem covered_length {periods : List Period} {first last : Month}
    (hspan : ∀ q ∈ periods, q.1.month ∈ span first last) :
    (periods.map fun q => startLabel q.1).dedup.length =
      ((span first last).filter fun m =>
        m.label ∈ (periods.map fun q => startLabel q.1).dedup).length := by
  have hne : (span first last).Nodup := (span_sorted first last).imp fun {m m'} hlt heq => by
    have hindex : m.index < m'.index := hlt
    rw [heq] at hindex
    exact Int.lt_irrefl _ hindex
  have hnodup := (hne.filter fun m =>
    m.label ∈ (periods.map fun q => startLabel q.1).dedup).map fun _ _ => Month.label_inj
  rw [← List.length_map Month.label]
  refine ((List.perm_ext_iff_of_nodup (List.nodup_dedup _) hnodup).2 fun label => ?_).length_eq
  constructor
  · intro hlabel
    obtain ⟨q, hq, rfl⟩ := List.mem_map.1 (List.mem_dedup.1 hlabel)
    exact List.mem_map.2 ⟨q.1.month, List.mem_filter.2 ⟨hspan q hq, decide_eq_true hlabel⟩, rfl⟩
  · intro hlabel
    obtain ⟨m, hm, rfl⟩ := List.mem_map.1 hlabel
    exact of_decide_eq_true (List.mem_filter.1 hm).2

/-- Sorted periods start between the first start and the last. -/
theorem starts_bounds {p : Period} {ps : List Period} (hsorted : (p :: ps).Pairwise before) :
    ∀ q ∈ p :: ps, p.1 ≤ q.1 ∧ q.1 ≤ ((p :: ps).getLast (List.cons_ne_nil p ps)).1 := by
  have hrefl : Std.Refl before := ⟨fun q => (Std.Total.total q q).elim id id⟩
  intro q hq
  refine ⟨?_, start_le (hsorted.rel_getLast hq)⟩
  rcases List.mem_cons.1 hq with rfl | hq
  · exact Int.le_refl _
  · exact start_le ((List.pairwise_cons.1 hsorted).1 q hq)

/-- The coverage of an account is exact once there is fuel for its span. -/
theorem coverageOf_exact {periods : List Period} (hne : periods ≠ [])
    (hsorted : periods.Pairwise before) (today : Date) (account : Uuid) :
    ∃ n c, (∀ fuel, n ≤ fuel → coverageOf fuel today account periods = some c) ∧
      c.accountId = account ∧ Exact (periods.map Prod.fst) c := by
  cases periods with
  | nil => exact absurd rfl hne
  | cons p ps =>
    have hbounds := starts_bounds hsorted
    set last := (p :: ps).getLast (List.cons_ne_nil p ps) with hlast
    have hmem : last ∈ p :: ps := List.getLast_mem _
    have hspan : ∀ q ∈ p :: ps, q.1.month ∈ span p.1.month last.1.month := fun q hq =>
      mem_span.2 ⟨Date.month_mono (hbounds q hq).1, Date.month_mono (hbounds q hq).2⟩
    have hmonths : p.1.month.index ≤ last.1.month.index := Date.month_mono (hbounds last hmem).1
    refine ⟨(last.1.month.index + 1 - p.1.month.index).toNat + 1,
      coverageWith today account p ps ((span p.1.month last.1.month).map Month.label),
      fun fuel hfuel => ?_, rfl, p.1, List.mem_cons_self, last.1, List.mem_map_of_mem hmem, ?_,
      ?_, ?_⟩
    · simp only [coverageOf, ← hlast, monthLabels_span (Nat.lt_of_succ_le hfuel)]
      rfl
    · intro d hd
      obtain ⟨q, hq, rfl⟩ := List.mem_map.1 hd
      exact hbounds q hq
    · refine ⟨(span p.1.month last.1.month).filter fun m =>
        m.label ∉ ((p :: ps).map fun q => startLabel q.1).dedup, ?_, fun m => ?_, ?_⟩
      · exact (span_sorted _ _).filter _
      · rw [List.mem_filter, mem_span, decide_eq_true_eq, mem_startLabels]
        simp
      · simp only [coverageWith, List.filter_map]
        rfl
    · have hfilter := List.length_eq_length_filter_add (l := span p.1.month last.1.month) fun m =>
        m.label ∈ ((p :: ps).map fun q => startLabel q.1).dedup
      rw [span_length, ← covered_length hspan] at hfilter
      simp only [coverageWith, List.filter_map, List.length_map, Function.comp_def, decide_not]
      omega

theorem Exact.congr {starts starts' : List Date} {c : AccountCoverage}
    (h : ∀ d, d ∈ starts ↔ d ∈ starts') (hc : Exact starts c) : Exact starts' c := by
  obtain ⟨first, hfirst, last, hlast, hbounds, ⟨months, hsorted, hmem, hmissing⟩, htotal⟩ := hc
  refine ⟨first, (h first).1 hfirst, last, (h last).1 hlast, fun d hd => hbounds d ((h d).2 hd),
    ⟨months, hsorted, fun m => ?_, hmissing⟩, htotal⟩
  rw [hmem]
  exact and_congr_right fun _ => ⟨fun hall d hd => hall d ((h d).2 hd),
    fun hall d hd => hall d ((h d).1 hd)⟩

theorem mem_coverageRows {s : Store} {row : Uuid × Period} :
    row ∈ coverageRows s ↔ ∃ r ∈ s.focusCharges,
      row = (r.accountId, r.periodStart, r.periodEnd) := by
  rw [coverageRows, List.mem_dedup, List.mem_map]
  exact exists_congr fun r => and_congr_right fun _ => eq_comm

/-- The periods of an account are those of its charges. -/
theorem mem_periodsByAccount {s : Store} {p : Uuid × List (Uuid × Period)} :
    p ∈ (periodsByAccount s).items ↔
      p.2 = (coverageRows s).filter (fun row => row.1 = p.1) ∧ p.2 ≠ [] :=
  Dict.mem_items_group

theorem mem_sortedPeriods {s : Store} {p : Uuid × List (Uuid × Period)}
    (hp : p ∈ (periodsByAccount s).items) (d : Date) :
    d ∈ (sortedPeriods p.2).map Prod.fst ↔ d ∈ starts s p.1 := by
  rw [(mem_periodsByAccount.1 hp).1]
  simp only [sortedPeriods, starts, List.mem_map, List.mem_insertionSort, List.mem_dedup,
    List.mem_filter, mem_coverageRows, decide_eq_true_eq]
  constructor
  · rintro ⟨q, ⟨row, ⟨⟨r, hr, rfl⟩, haccount⟩, rfl⟩, rfl⟩
    exact ⟨r, ⟨hr, haccount⟩, rfl⟩
  · rintro ⟨r, ⟨hr, haccount⟩, rfl⟩
    exact ⟨_, ⟨_, ⟨⟨r, hr, rfl⟩, haccount⟩, rfl⟩, rfl⟩

theorem coverage_exact (s : Store) (today : Date) :
    ∃ n out, (∀ fuel, n ≤ fuel → computeFocusCoverage fuel s today = some out) ∧
      (∀ r ∈ s.focusCharges, ∃ c ∈ out, c.accountId = r.accountId) ∧
      ∀ c ∈ out, Exact (starts s c.accountId) c := by
  have hloop : ∃ n out, (∀ fuel, n ≤ fuel → computeFocusCoverage fuel s today = some out) ∧
      List.Forall₂ (fun p c => c.accountId = p.1 ∧ Exact (starts s p.1) c)
        ((periodsByAccount s).items.insertionSort fun p q => Uuid.text p.1 ≤ Uuid.text q.1)
        out := by
    refine Loop.exists_fuel fun p hp => ?_
    have hitem : p ∈ (periodsByAccount s).items := (List.mem_insertionSort _).1 hp
    have hne : sortedPeriods p.2 ≠ [] := by
      obtain ⟨row, hrow⟩ := List.exists_mem_of_ne_nil _ (mem_periodsByAccount.1 hitem).2
      have hperiod : row.2 ∈ sortedPeriods p.2 :=
        (List.mem_insertionSort _).2 (List.mem_dedup.2 (List.mem_map_of_mem hrow))
      exact List.ne_nil_of_mem hperiod
    have hsorted : (sortedPeriods p.2).Pairwise before := List.pairwise_insertionSort before _
    obtain ⟨n, c, hc, haccount, hexact⟩ := coverageOf_exact hne hsorted today p.1
    exact ⟨n, c, hc, haccount, hexact.congr (mem_sortedPeriods hitem)⟩
  obtain ⟨n, out, hout, hall⟩ := hloop
  refine ⟨n, out, hout, fun r hr => ?_, fun c hc => ?_⟩
  · have hrow : (r.accountId, r.periodStart, r.periodEnd) ∈ coverageRows s :=
      mem_coverageRows.2 ⟨r, hr, rfl⟩
    have hitem : (r.accountId, (coverageRows s).filter fun row => row.1 = r.accountId) ∈
        (periodsByAccount s).items :=
      mem_periodsByAccount.2 ⟨rfl, List.ne_nil_of_mem
        (List.mem_filter.2 ⟨hrow, decide_eq_true rfl⟩)⟩
    obtain ⟨c, hc, haccount, _⟩ := Loop.exists_right hall ((List.mem_insertionSort _).2 hitem)
    exact ⟨c, hc, haccount⟩
  · obtain ⟨p, _, haccount, hexact⟩ := Loop.exists_left hall hc
    rw [haccount]
    exact hexact

end Coverage

end Focus

end Constat
