import Constat.Focus.LoadedCosts
import Constat.Focus.LoaderAgreement
import Constat.Py.DecimalDigits

/-!
# Focus.SpecialCosts

A cost cell that spells an infinity or a NaN is a decimal, so the parser does not take it for
garbage: the charge is yielded with it, the totals of its bucket take it over, and `build_insights`
raises on them.

* `Unpoisoned`     — the charges and the totals of every grouping are finite, and the totals have
                     insights.
* `unpoisoned_iff` — that is so exactly when no row that converts has such a cell and no bucket's
                     difference leaves the range of the decimals.
-/

namespace Constat

namespace Focus

namespace Loader

open Py

/-! ## Buckets -/

def FiniteCosts (c : LoadedCharge) : Prop :=
  c.billedCost.isFinite = true ∧ c.amortizedCost.isFinite = true

/-- The rows have these totals. -/
structure Totals (rows : List LoadedCharge) (billed amortized : Decimal) : Prop where
  billed : billedSum rows = .ok billed
  amortized : amortizedSum rows = .ok amortized

/-- The totals of the rows are in the range of the decimals. -/
def Fits (rows : List LoadedCharge) : Prop := ∃ billed amortized, Totals rows billed amortized

/-- So is the difference of the totals. -/
def DriftFits (rows : List LoadedCharge) : Prop :=
  ∀ billed amortized, Totals rows billed amortized → ∃ d, Decimal.sub amortized billed = .ok d

theorem totals_nil : Totals [] .zero .zero := ⟨rfl, rfl⟩

theorem Totals.unique {rows : List LoadedCharge} {b a b' a' : Decimal} (h : Totals rows b a)
    (h' : Totals rows b' a') : b = b' ∧ a = a' :=
  ⟨Except.ok.inj (h.billed.symm.trans h'.billed),
    Except.ok.inj (h.amortized.symm.trans h'.amortized)⟩

theorem driftFits_nil : DriftFits [] := by
  intro b a h
  obtain ⟨rfl, rfl⟩ := totals_nil.unique h
  exact ⟨.zero, by decide +kernel⟩

theorem Totals.finite {rows : List LoadedCharge} {b a : Decimal} (h : Totals rows b a)
    (hrows : ∀ c ∈ rows, FiniteCosts c) : b.isFinite = true ∧ a.isFinite = true := by
  constructor
  · refine Decimal.sum_finite ?_ h.billed
    intro x hx
    obtain ⟨c, hc, rfl⟩ := List.mem_map.1 hx
    exact (hrows c hc).1
  · refine Decimal.sum_finite ?_ h.amortized
    intro x hx
    obtain ⟨c, hc, rfl⟩ := List.mem_map.1 hx
    exact (hrows c hc).2

section

variable {κ : Type} [DecidableEq κ] (key : LoadedCharge → κ) (charges : List LoadedCharge)

def bucket (k : κ) : List LoadedCharge := charges.filter fun c => key c = k

/-- A grouping whose totals are all in range has all its differences in range. -/
def InRange : Prop := (∀ k, Fits (bucket key charges k)) → ∀ k, DriftFits (bucket key charges k)

/-- A grouping returns the totals of its buckets, and raises only where one is out of range. -/
structure Groups (result : Except PyError (List LoadedCost)) : Prop where
  bucket_of_mem : ∀ costs, result = .ok costs → ∀ a ∈ costs,
    ∃ k, Totals (bucket key charges k) a.billedCost a.amortizedCost
  cost_of_bucket : ∀ costs, result = .ok costs → ∀ k, bucket key charges k ≠ [] →
    ∃ a ∈ costs, Totals (bucket key charges k) a.billedCost a.amortizedCost
  returns : (∀ k, Fits (bucket key charges k)) → ∃ costs, result = .ok costs

end

section

variable {κ : Type} [DecidableEq κ] {key : LoadedCharge → κ} {charges : List LoadedCharge}

theorem mem_groupRows {p : κ × List LoadedCharge} :
    p ∈ (groupRows key charges).items ↔ p.2 = bucket key charges p.1 ∧ p.2 ≠ [] :=
  Dict.mem_items_group

/-- The totals of finite charges are finite. -/
theorem Groups.finite {result : Except PyError (List LoadedCost)}
    (hg : Groups key charges result) (hfinite : ∀ c ∈ charges, FiniteCosts c)
    {costs : List LoadedCost} (h : result = .ok costs) :
    ∀ a ∈ costs, a.billedCost.isFinite = true ∧ a.amortizedCost.isFinite = true := by
  intro a ha
  obtain ⟨k, htotals⟩ := hg.bucket_of_mem costs h a ha
  exact htotals.finite fun c hc => hfinite c (List.mem_filter.1 hc).1

theorem groups_mapM {f : κ × List LoadedCharge → Except PyError LoadedCost}
    (htotals : ∀ p a, f p = .ok a → Totals p.2 a.billedCost a.amortizedCost)
    (hreturns : ∀ p, Fits p.2 → ∃ a, f p = .ok a) :
    Groups key charges ((groupRows key charges).items.mapM f) := by
  constructor
  · intro costs h a ha
    obtain ⟨p, hp, hpa⟩ := Loop.mem_of_mapM h ha
    exact ⟨p.1, (mem_groupRows.1 hp).1 ▸ htotals p a hpa⟩
  · intro costs h k hne
    have hmem : (k, bucket key charges k) ∈ (groupRows key charges).items :=
      mem_groupRows.2 ⟨rfl, hne⟩
    obtain ⟨a, ha, hpa⟩ := Loop.exists_right (Loop.mapM_ok h) hmem
    exact ⟨a, ha, htotals _ a hpa⟩
  · intro hfits
    exact Loop.mapM_returns fun p hp => hreturns p ((mem_groupRows.1 hp).1 ▸ hfits p.1)

end

/-! ## Sums -/

theorem totals_of_sumRows {account service currency : String} {period : Option (Date × Date)}
    {rows : List LoadedCharge} {a : LoadedCost}
    (h : sumRows account service currency period rows = .ok a) :
    Totals rows a.billedCost a.amortizedCost := by
  obtain ⟨billed, hb, h⟩ := Loop.bind_ok.1 h
  obtain ⟨amortized, ha, h⟩ := Loop.bind_ok.1 h
  cases h
  exact ⟨trap_ok.1 hb, trap_ok.1 ha⟩

theorem exists_sumRows (account service currency : String) (period : Option (Date × Date))
    {rows : List LoadedCharge} (h : Fits rows) :
    ∃ a, sumRows account service currency period rows = .ok a := by
  obtain ⟨b, a, hb, ha⟩ := h
  exact ⟨_, Loop.bind_ok.2 ⟨b, trap_ok.2 hb, Loop.bind_ok.2 ⟨a, trap_ok.2 ha, rfl⟩⟩⟩

variable {charges : List LoadedCharge}

theorem groups_aggregate : Groups accountKey charges (aggregate charges) :=
  groups_mapM (fun _ _ => totals_of_sumRows) fun _ => exists_sumRows _ _ _ none

theorem groups_byPeriod : Groups periodKey charges (aggregateByPeriod charges) :=
  groups_mapM (fun _ _ => totals_of_sumRows) fun _ => exists_sumRows _ _ _ _

theorem totals_of_aggregateBucket {p : BucketKey × List LoadedCharge} {a : LoadedAggregate}
    (h : aggregateBucket p = .ok a) : Totals p.2 a.billedCost a.amortizedCost := by
  unfold aggregateBucket at h
  simp only at h
  split at h
  · cases h
  · obtain ⟨billed, hb, h⟩ := Loop.bind_ok.1 h
    obtain ⟨amortized, ha, h⟩ := Loop.bind_ok.1 h
    cases h
    exact ⟨trap_ok.1 hb, trap_ok.1 ha⟩

theorem finite_of_storage {aggs : List LoadedAggregate} (hfinite : ∀ c ∈ charges, FiniteCosts c)
    (h : aggregateForStorage charges = .ok aggs) {a : LoadedAggregate} (ha : a ∈ aggs) :
    a.billedCost.isFinite = true ∧ a.amortizedCost.isFinite = true := by
  obtain ⟨p, hp, hpa⟩ := Loop.mem_of_mapM h ha
  refine (totals_of_aggregateBucket hpa).finite fun c hc => hfinite c ?_
  rw [(mem_groupRows.1 hp).1] at hc
  exact (List.mem_filter.1 hc).1

/-! ## Sums by tag -/

/-- A row of the loader adds to one bucket. -/
def rowPosting (tagKey : String) (c : LoadedCharge) : Posting :=
  ⟨tagBucket tagKey c, c.billedCost, c.amortizedCost, none, bucketTags tagKey c.tags⟩

theorem postings_charge (tagKey : String) (c : LoadedCharge) :
    c.charge.postings tagKey = [rowPosting tagKey c] := rfl

theorem flatMap_postings (tagKey : String) (rows : List LoadedCharge) :
    (rows.map LoadedCharge.charge).flatMap (·.postings tagKey) =
      rows.map (rowPosting tagKey) := by
  rw [List.flatMap_map]
  exact List.flatMap_pure_eq_map _ _

theorem even_charge (c : LoadedCharge) : ¬ c.charge.Uneven := fun h => h.2 rfl

theorem rowsM_rows {tagKey : String} {rows : List LoadedCharge} (hne : rows ≠ [])
    {o : Option (Decimal × Decimal × Nat)} :
    Dict.rowsM addPosting (rows.map (rowPosting tagKey)) none = .ok o ↔
      ∃ b a, Totals rows b a ∧ o = some (b, a, rows.length) := by
  have hparts : ∀ p ∈ rows.map (rowPosting tagKey),
      p.part p.billed = .ok p.billed ∧ p.part p.amortized = .ok p.amortized := by
    intro p hp
    obtain ⟨c, _, rfl⟩ := List.mem_map.1 hp
    exact ⟨rfl, rfl⟩
  have hmap : rows.map (rowPosting tagKey) ≠ [] := by simpa using hne
  rw [rowsM_none hmap hparts, List.map_map, List.map_map, List.length_map]
  constructor
  · rintro ⟨b, a, hb, ha, rfl⟩
    exact ⟨b, a, ⟨hb, ha⟩, rfl⟩
  · rintro ⟨b, a, ⟨hb, ha⟩, rfl⟩
    exact ⟨b, a, hb, ha, rfl⟩

theorem filter_rowPosting (tagKey : String) (k : CostKey) :
    (charges.map (rowPosting tagKey)).filter (fun p => p.key = k) =
      (bucket (tagBucket tagKey) charges k).map (rowPosting tagKey) := by
  rw [List.filter_map]
  rfl

/-- The postings to a bucket are the rows of that bucket. -/
theorem bucketSums_rows (tagKey : String) (k : CostKey) :
    bucketSums tagKey (charges.map LoadedCharge.charge) k =
      Dict.rowsM addPosting ((bucket (tagBucket tagKey) charges k).map (rowPosting tagKey)) none := by
  rw [bucketSums, entries, flatMap_postings, filter_rowPosting]

theorem groups_byTag {tagKey : String} (htag : tagKey ≠ "") :
    Groups (tagBucket tagKey) charges
      (aggregateByTag (charges.map LoadedCharge.charge) tagKey) := by
  have hlookup : ∀ b, (charges.map LoadedCharge.charge).foldlM (addCharge tagKey) .empty = .ok b →
      ∀ k, Dict.rowsM addPosting
        ((bucket (tagBucket tagKey) charges k).map (rowPosting tagKey)) none =
          .ok (b.sums.get? k) :=
    fun b hb k => (bucketSums_rows tagKey k).symm.trans (bucketSums_run hb k)
  constructor
  · intro costs h a ha
    obtain ⟨_, b, hb, rfl⟩ := aggregateByTag_ok_iff.1 h
    obtain ⟨p, hp, rfl⟩ := List.mem_map.1 ha
    have hrows := hlookup b hb p.1
    rw [Dict.mem_items.1 hp] at hrows
    have hne : bucket (tagBucket tagKey) charges p.1 ≠ [] := by
      intro hempty
      rw [hempty] at hrows
      cases hrows
    obtain ⟨billed, amortized, htotals, hp'⟩ := (rowsM_rows hne).1 hrows
    rw [Option.some.injEq] at hp'
    refine ⟨p.1, ?_⟩
    simp only [tagCost, hp']
    exact htotals
  · intro costs h k hne
    obtain ⟨_, b, hb, rfl⟩ := aggregateByTag_ok_iff.1 h
    obtain ⟨billed, amortized, htotals, hk⟩ := (rowsM_rows hne).1 (hlookup b hb k)
    exact ⟨_, List.mem_map_of_mem (Dict.get?_eq_some.1 hk), htotals⟩
  · intro hfits
    have hsums : ∀ k, ∃ o, bucketSums tagKey (charges.map LoadedCharge.charge) k = .ok o := by
      intro k
      rw [bucketSums_rows]
      by_cases hne : bucket (tagBucket tagKey) charges k = []
      · rw [hne]
        exact ⟨_, rfl⟩
      · obtain ⟨billed, amortized, htotals⟩ := hfits k
        exact ⟨_, (rowsM_rows hne).2 ⟨billed, amortized, htotals, rfl⟩⟩
    obtain ⟨b, hb⟩ := exists_run (by simp [even_charge]) hsums
    exact ⟨_, aggregateByTag_ok_iff.2 ⟨htag, b, hb, rfl⟩⟩

/-! ## Insights -/

/-- Finite totals have an insight when their difference is in range. -/
theorem exists_buildInsight {label : String} {a : LoadedCost} {drift : Decimal}
    (hb : a.billedCost.isFinite = true) (ha : a.amortizedCost.isFinite = true)
    (h : a.drift = .ok drift) : ∃ i, buildInsight label a = .ok i := by
  have hfinite := Decimal.sub_finite ha hb h
  obtain ⟨size, hsize⟩ := Decimal.abs_of_sub ha hb h
  have hfloat : ∀ {d : Decimal}, d.isFinite = true → ∃ x, d.toFloat = .ok x := by
    intro d hd
    cases d with
    | finite q => exact ⟨_, rfl⟩
    | inf s => cases hd
    | nan s => cases hd
  have hdirection : ∃ s, direction drift = .ok s := by
    cases drift with
    | finite q =>
      unfold direction
      simp only [Decimal.positive, Decimal.negative, bind, Except.bind, pure, Except.pure]
      split
      · exact ⟨_, rfl⟩
      · split <;> exact ⟨_, rfl⟩
    | inf s => cases hfinite
    | nan s => cases hfinite
  obtain ⟨s, hs⟩ := hdirection
  obtain ⟨billed, hbilled⟩ := hfloat hb
  obtain ⟨amortized, hamortized⟩ := hfloat ha
  obtain ⟨change, hchange⟩ := hfloat hfinite
  exact ⟨_, Loop.bind_ok.2 ⟨drift, trap_ok.2 h, Loop.bind_ok.2 ⟨s, trap_ok.2 hs,
    Loop.bind_ok.2 ⟨size, trap_ok.2 hsize, Loop.bind_ok.2 ⟨billed, hbilled,
      Loop.bind_ok.2 ⟨amortized, hamortized, Loop.bind_ok.2 ⟨change, hchange, rfl⟩⟩⟩⟩⟩⟩⟩

theorem drift_of_buildInsight {label : String} {a : LoadedCost} {i : CostInsight}
    (h : buildInsight label a = .ok i) : ∃ d, a.drift = .ok d := by
  obtain ⟨d, hd, _⟩ := Loop.bind_ok.1 h
  exact ⟨d, trap_ok.1 hd⟩

/-- The insights of a grouping of finite charges need its differences and nothing else. -/
theorem insights_iff {κ : Type} [DecidableEq κ] {key : LoadedCharge → κ}
    {result : Except PyError (List LoadedCost)} (hg : Groups key charges result)
    (hfinite : ∀ c ∈ charges, FiniteCosts c) :
    (∀ costs, result = .ok costs → ∀ label, ∃ out, buildInsights label costs = .ok out) ↔
      InRange key charges := by
  constructor
  · intro h hfits k
    obtain ⟨costs, hcosts⟩ := hg.returns hfits
    obtain ⟨out, hout⟩ := h costs hcosts ""
    by_cases hne : bucket key charges k = []
    · rw [hne]
      exact driftFits_nil
    · obtain ⟨a, ha, htotals⟩ := hg.cost_of_bucket costs hcosts k hne
      obtain ⟨i, _, hi⟩ := Loop.exists_right (Loop.mapM_ok hout) ha
      intro billed amortized hsum
      obtain ⟨rfl, rfl⟩ := hsum.unique htotals
      exact drift_of_buildInsight hi
  · intro h costs hcosts label
    have hfits : ∀ k, Fits (bucket key charges k) := by
      intro k
      by_cases hne : bucket key charges k = []
      · rw [hne]
        exact ⟨_, _, totals_nil⟩
      · obtain ⟨a, _, htotals⟩ := hg.cost_of_bucket costs hcosts k hne
        exact ⟨_, _, htotals⟩
    refine Loop.mapM_returns fun a ha => ?_
    obtain ⟨k, htotals⟩ := hg.bucket_of_mem costs hcosts a ha
    obtain ⟨drift, hdrift⟩ := h hfits k _ _ htotals
    obtain ⟨hb, ha⟩ := htotals.finite fun c hc => hfinite c (List.mem_filter.1 hc).1
    exact exists_buildInsight hb ha hdrift

/-! ## Cells -/

theorem parseDecimal_finite_iff {cell : Option String} :
    (parseDecimal cell).isFinite = true ↔ ∀ s, cell = some s → ¬ Decimal.Special s := by
  cases cell with
  | none => simp [parseDecimal, Decimal.zero, Decimal.isFinite]
  | some s =>
    have hcell : (∀ s', some s = some s' → ¬ Decimal.Special s') ↔ ¬ Decimal.Special s := by simp
    rw [hcell]
    by_cases hempty : s = ""
    · simp [parseDecimal, hempty, Decimal.zero, Decimal.isFinite, Decimal.not_special_empty]
    · simp only [parseDecimal, if_neg hempty]
      cases hparse : Decimal.parse s with
      | some d => exact Decimal.parse_finite_iff hparse
      | none =>
        have hspecial : ¬ Decimal.Special s := by
          intro hs
          obtain ⟨d, hd, _⟩ := Decimal.parse_of_special hs
          rw [hd] at hparse
          cases hparse
        simp [hspecial, Decimal.zero, Decimal.isFinite]

/-- The provider decides on the canonical name and on nothing else. -/
theorem rowToCharge_provider {env : LoaderEnv} {provider : Option String} {row : Row}
    {c : LoadedCharge} (h : rowToCharge env provider row = .ok c) (other : Option String) :
    ∃ name, rowToCharge env other row = .ok { c with serviceCanonical := name } := by
  obtain ⟨tags, htags, h⟩ := Loop.bind_ok.1 h
  obtain ⟨currency, hcurrency, h⟩ := Loop.bind_ok.1 h
  obtain ⟨start, hstart, h⟩ := Loop.bind_ok.1 h
  obtain ⟨end_, hend, h⟩ := Loop.bind_ok.1 h
  cases h
  exact ⟨_, Loop.bind_ok.2 ⟨tags, htags, Loop.bind_ok.2 ⟨currency, hcurrency,
    Loop.bind_ok.2 ⟨start, hstart, Loop.bind_ok.2 ⟨end_, hend, rfl⟩⟩⟩⟩⟩

theorem costs_of_rowToCharge {env : LoaderEnv} {provider : Option String} {row : Row}
    {c : LoadedCharge} (h : rowToCharge env provider row = .ok c) :
    c.billedCost = parseDecimal (row.get? "BilledCost") ∧
      c.amortizedCost = parseDecimal (row.get? "EffectiveCost") := by
  obtain ⟨_, _, h⟩ := Loop.bind_ok.1 h
  obtain ⟨_, _, h⟩ := Loop.bind_ok.1 h
  obtain ⟨_, _, h⟩ := Loop.bind_ok.1 h
  obtain ⟨_, _, h⟩ := Loop.bind_ok.1 h
  cases h
  exact ⟨rfl, rfl⟩

section

variable (env : LoaderEnv) (t : FocusTable)

/-- What either loader gives, with any provider. -/
inductive LoadOf : Load → Prop where
  | csv (provider : Option String) : LoadOf (loadFocusCsv env provider t)
  | parquet (provider : Option String) : LoadOf (loadFocusParquet env provider t)

/-- The charge is that of a row of the table. -/
def OfTable (c : LoadedCharge) : Prop :=
  ∃ cells ∈ t.rows, ∃ provider, rowToCharge env provider (parquetRow t.columns cells) = .ok c

end

section

variable {env : LoaderEnv} {t : FocusTable} {provider : Option String}

theorem mem_charges {l : Load} {c : LoadedCharge} : c ∈ l.charges ↔ .charge c ∈ l.events := by
  unfold Load.charges
  rw [List.mem_filterMap]
  constructor
  · rintro ⟨e, he, hc⟩
    cases e with
    | charge c' => rwa [← Option.some.inj hc]
    | skip n e => cases hc
  · intro h
    exact ⟨_, h, rfl⟩

theorem convert_eq_charge {n : Nat} {row : Row} {c : LoadedCharge} :
    .charge c = convert env provider n row ↔ rowToCharge env provider row = .ok c := by
  unfold convert
  cases rowToCharge env provider row with
  | ok c' => simp [eq_comm]
  | error e => simp

theorem charge_mem_loadRows {rows : List Row} {c : LoadedCharge} : ∀ {n : Nat},
    .charge c ∈ loadRows env provider n rows ↔
      ∃ row ∈ rows, rowToCharge env provider row = .ok c := by
  induction rows with
  | nil => intro n; simp [loadRows]
  | cons row rows ih =>
    intro n
    rw [loadRows, List.mem_cons, ih, convert_eq_charge]
    simp

theorem charge_mem_loadFrom {n : Nat} {rows : List Row} {raised : Option LoaderError}
    {c : LoadedCharge} (h : .charge c ∈ (loadFrom env provider n rows raised).events) :
    ∃ row ∈ rows, rowToCharge env provider row = .ok c := by
  unfold loadFrom at h
  split at h
  · cases h
  · exact charge_mem_loadRows.1 h

theorem mem_csvRows {row : Row} (h : row ∈ (csvRows t).1) :
    ∃ cells ∈ t.rows, row = parquetRow t.columns cells := by
  simp only [csvRows] at h
  obtain ⟨record, hrecord, rfl⟩ := List.mem_map.1 h
  obtain ⟨cells, hcells, rfl⟩ := List.mem_map.1 ((List.takeWhile_subset _) hrecord)
  exact ⟨cells, hcells, (parquetRow_eq t.columns cells).symm⟩

theorem ofTable_of_csv {c : LoadedCharge} (h : c ∈ (loadFocusCsv env provider t).charges) :
    OfTable env t c := by
  have hrow : ∀ p, ∀ row ∈ (csvRows t).1, rowToCharge env p row = .ok c → OfTable env t c := by
    intro p row hrow hc
    obtain ⟨cells, hcells, rfl⟩ := mem_csvRows hrow
    exact ⟨cells, hcells, p, hc⟩
  rw [mem_charges] at h
  unfold loadFocusCsv at h
  split at h
  · cases h
  · split at h
    · cases h
    · simp only at h
      split at h
      · split at h
        · cases h
        · cases h
        · rename_i first rows hrows
          rcases List.mem_cons.1 h with h | h
          · exact hrow _ first (by rw [hrows]; exact List.mem_cons_self) (convert_eq_charge.1 h)
          · obtain ⟨row, hmem, hc⟩ := charge_mem_loadFrom h
            exact hrow _ row (by rw [hrows]; exact List.mem_cons_of_mem _ hmem) hc
      · obtain ⟨row, hmem, hc⟩ := charge_mem_loadFrom h
        exact hrow _ row hmem hc

theorem ofTable_of_parquet {c : LoadedCharge}
    (h : c ∈ (loadFocusParquet env provider t).charges) : OfTable env t c := by
  rw [mem_charges] at h
  unfold loadFocusParquet at h
  split at h
  · cases h
  · obtain ⟨row, hmem, hc⟩ := charge_mem_loadFrom h
    obtain ⟨cells, hcells, rfl⟩ := List.mem_map.1 hmem
    exact ⟨cells, hcells, _, hc⟩

theorem ofTable_of_load {l : Load} (hl : LoadOf env t l) {c : LoadedCharge} (h : c ∈ l.charges) :
    OfTable env t c := by
  cases hl with
  | csv provider => exact ofTable_of_csv h
  | parquet provider => exact ofTable_of_parquet h

/-- Without a provider the Parquet loader yields every row that converts. -/
theorem mem_parquet_charges {cells : List (Option String)} (hcells : cells ∈ t.rows)
    {c : LoadedCharge} (h : rowToCharge env none (parquetRow t.columns cells) = .ok c) :
    c ∈ (loadFocusParquet env none t).charges := by
  rw [mem_charges, loadFocusParquet_named rfl (by decide)]
  exact charge_mem_loadRows.2 ⟨_, List.mem_map_of_mem hcells, h⟩

end

/-! ## One bad cell -/

/-- What the resolver groups the charges to. -/
inductive Resolves (charges : List LoadedCharge) : List LoadedCost → Prop where
  | all {costs : List LoadedCost} (h : aggregate charges = .ok costs) : Resolves charges costs
  | byPeriod {costs : List LoadedCost} (h : aggregateByPeriod charges = .ok costs) :
      Resolves charges costs
  | byTag {tagKey : String} {costs : List LoadedCost}
      (h : aggregateByTag (charges.map LoadedCharge.charge) tagKey = .ok costs) :
      Resolves charges costs

structure Unpoisoned (charges : List LoadedCharge) : Prop where
  finite : ∀ c ∈ charges, FiniteCosts c
  stored : ∀ aggs, aggregateForStorage charges = .ok aggs →
    ∀ a ∈ aggs, a.billedCost.isFinite = true ∧ a.amortizedCost.isFinite = true
  totals : ∀ costs, Resolves charges costs →
    ∀ a ∈ costs, a.billedCost.isFinite = true ∧ a.amortizedCost.isFinite = true
  insights : ∀ costs, Resolves charges costs →
    ∀ label, ∃ out, buildInsights label costs = .ok out

/-- No grouping has totals in range with a difference that is not. -/
structure DriftsInRange (charges : List LoadedCharge) : Prop where
  all : InRange accountKey charges
  byPeriod : InRange periodKey charges
  byTag : ∀ tagKey ≠ "", InRange (tagBucket tagKey) charges

/-- No cost cell of a row that converts spells an infinity or a NaN. -/
def NoSpecialCosts (env : LoaderEnv) (t : FocusTable) : Prop :=
  ∀ cells ∈ t.rows, (∃ c, rowToCharge env none (parquetRow t.columns cells) = .ok c) →
    ∀ column ∈ ["BilledCost", "EffectiveCost"], ∀ s,
      (parquetRow t.columns cells).get? column = some s → ¬ Decimal.Special s

theorem finiteCosts_iff {env : LoaderEnv} {provider : Option String} {row : Row}
    {c : LoadedCharge} (h : rowToCharge env provider row = .ok c) :
    FiniteCosts c ↔ ∀ column ∈ ["BilledCost", "EffectiveCost"], ∀ s,
      row.get? column = some s → ¬ Decimal.Special s := by
  obtain ⟨hb, ha⟩ := costs_of_rowToCharge h
  unfold FiniteCosts
  rw [hb, ha, parseDecimal_finite_iff, parseDecimal_finite_iff]
  simp

theorem finite_iff_noSpecial (env : LoaderEnv) (t : FocusTable) :
    (∀ l, LoadOf env t l → ∀ c ∈ l.charges, FiniteCosts c) ↔ NoSpecialCosts env t := by
  constructor
  · rintro h cells hcells ⟨c, hc⟩
    exact (finiteCosts_iff hc).1 (h _ (.parquet none) c (mem_parquet_charges hcells hc))
  · intro h l hl c hc
    obtain ⟨cells, hcells, provider, hrow⟩ := ofTable_of_load hl hc
    obtain ⟨name, hnone⟩ := rowToCharge_provider hrow none
    exact (finiteCosts_iff hrow).2 (h cells hcells ⟨_, hnone⟩)

theorem unpoisoned_iff_inRange (hfinite : ∀ c ∈ charges, FiniteCosts c) :
    Unpoisoned charges ↔ DriftsInRange charges := by
  constructor
  · intro h
    exact ⟨(insights_iff groups_aggregate hfinite).1 fun costs hc => h.insights costs (.all hc),
      (insights_iff groups_byPeriod hfinite).1 fun costs hc => h.insights costs (.byPeriod hc),
      fun tagKey htag => (insights_iff (groups_byTag htag) hfinite).1
        fun costs hc => h.insights costs (.byTag hc)⟩
  · intro h
    have htag : ∀ {tagKey costs},
        aggregateByTag (charges.map LoadedCharge.charge) tagKey = .ok costs → tagKey ≠ "" := by
      rintro tagKey costs hc rfl
      cases hc
    refine ⟨hfinite, fun aggs haggs a ha => finite_of_storage hfinite haggs ha, ?_, ?_⟩
    · intro costs hc
      cases hc with
      | all hc => exact groups_aggregate.finite hfinite hc
      | byPeriod hc => exact groups_byPeriod.finite hfinite hc
      | byTag hc => exact (groups_byTag (htag hc)).finite hfinite hc
    · intro costs hc
      cases hc with
      | all hc => exact (insights_iff groups_aggregate hfinite).2 h.all costs hc
      | byPeriod hc => exact (insights_iff groups_byPeriod hfinite).2 h.byPeriod costs hc
      | byTag hc =>
        exact (insights_iff (groups_byTag (htag hc)) hfinite).2 (h.byTag _ (htag hc)) costs hc

theorem unpoisoned_iff (env : LoaderEnv) (t : FocusTable) :
    (∀ l, LoadOf env t l → Unpoisoned l.charges) ↔
      NoSpecialCosts env t ∧ ∀ l, LoadOf env t l → DriftsInRange l.charges := by
  rw [← finite_iff_noSpecial]
  constructor
  · intro h
    have hfinite : ∀ l, LoadOf env t l → ∀ c ∈ l.charges, FiniteCosts c :=
      fun l hl => (h l hl).finite
    exact ⟨hfinite, fun l hl => (unpoisoned_iff_inRange (hfinite l hl)).1 (h l hl)⟩
  · rintro ⟨hfinite, hrange⟩ l hl
    exact (unpoisoned_iff_inRange (hfinite l hl)).2 (hrange l hl)

/-- One row whose billed cost is `NaN`. -/
def nanTable : FocusTable where
  columns := "RegionId" :: requiredColumns
  rows := [["eu-west-1", "123456789012", "Production", "Amazon EC2", "2026-07-01", "2026-07-31",
    "NaN", "10", "On-Demand", "i-0", "123456789012", "USD"].map some]
  nodup := nodup_requiredColumns
  width := by decide
  valid := valid_requiredColumns

/-- The row is not skipped, and the insights of its account raise. -/
theorem nan_cell_raises : ¬ (∀ l, LoadOf plainEnv nanTable l → Unpoisoned l.charges) ∧
    (loadFocusCsv plainEnv (some "aws") nanTable).charges.map (·.billedCost) = [.nan false] ∧
    (aggregateByPeriod (loadFocusCsv plainEnv (some "aws") nanTable).charges >>=
      buildInsights "") = .error (signal .invalidOperation) := by
  have hcosts : (loadFocusCsv plainEnv (some "aws") nanTable).charges.map (·.billedCost) =
      [.nan false] := by decide +kernel
  refine ⟨fun h => ?_, hcosts, by decide +kernel⟩
  have hmem : Decimal.nan false ∈
      (loadFocusCsv plainEnv (some "aws") nanTable).charges.map (·.billedCost) := by
    rw [hcosts]
    exact List.mem_cons_self
  obtain ⟨c, hc, hnan⟩ := List.mem_map.1 hmem
  have hfinite := ((h _ (.csv (some "aws"))).finite c hc).1
  rw [hnan] at hfinite
  cases hfinite

end Loader

end Focus

end Constat
