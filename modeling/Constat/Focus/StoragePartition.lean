import Constat.Focus.Partition
import Constat.Focus.SpecialCosts
import Constat.Py.DecimalSums

/-!
# Focus.StoragePartition

`aggregate_for_storage` splits the loader's rows, in the decimals of the program. Which row goes
where, and what stands side by side, is as it would be with numbers. The totals are sums of decimals:
a signaling NaN makes one raise, and more than 28 digits make it lose the last ones, which depend on
the order of the rows.

* `Partition`   — what is returned for any rows.
* `ExactCosts`  — the costs of every bucket are finite and together fit in 28 digits.
* `ExactTotals` — then no cost is lost.
-/

namespace Constat

namespace Focus

namespace Loader

/-! ## Refusals -/

/-- Two rows of one service key and period are in two currencies. -/
def MixesCurrencies (rows : List LoadedCharge) : Prop :=
  ∃ c ∈ rows, ∃ c' ∈ rows, bucketKey c = bucketKey c' ∧ c.billingCurrency ≠ c'.billingCurrency

/-- The decimals of some bucket have no sum. -/
def SumRaises (rows : List LoadedCharge) : Prop := ∃ key, ¬ Fits (bucket bucketKey rows key)

theorem aggregateBucket_error {p : BucketKey × List LoadedCharge} :
    (∃ e, aggregateBucket p = .error e) ↔
      (∃ c ∈ p.2, ∃ c' ∈ p.2, c.billingCurrency ≠ c'.billingCurrency) ∨ ¬ Fits p.2 := by
  have hmixed := one_lt_length_dedup (l := p.2.map (·.billingCurrency))
  simp only [List.mem_map, exists_exists_and_eq_and] at hmixed
  rw [← hmixed]
  unfold aggregateBucket
  by_cases h : (p.2.map (·.billingCurrency)).dedup.length > 1
  · simp only [h, if_true, true_or, iff_true]
    exact ⟨_, rfl⟩
  · simp only [h, if_false, false_or]
    cases hb : billedSum p.2 with
    | error e =>
      refine iff_of_true ⟨_, rfl⟩ ?_
      rintro ⟨b, a, hsum, _⟩
      rw [hb] at hsum
      cases hsum
    | ok b =>
      cases ha : amortizedSum p.2 with
      | error e =>
        refine iff_of_true ⟨_, rfl⟩ ?_
        rintro ⟨b, a, _, hsum⟩
        rw [ha] at hsum
        cases hsum
      | ok a => exact iff_of_false (fun ⟨_, he⟩ => (by cases he)) fun hfits => hfits ⟨b, a, hb, ha⟩

theorem mem_bucket {κ : Type} [DecidableEq κ] {key : LoadedCharge → κ} {rows : List LoadedCharge}
    {k : κ} {c : LoadedCharge} : c ∈ bucket key rows k ↔ c ∈ rows ∧ key c = k := by
  simp [bucket]

theorem mem_groupRows_bucket {rows : List LoadedCharge} {c : LoadedCharge} (hc : c ∈ rows) :
    (bucketKey c, bucket bucketKey rows (bucketKey c)) ∈ (groupRows bucketKey rows).items :=
  mem_groupRows.2 ⟨rfl, List.ne_nil_of_mem (mem_bucket.2 ⟨hc, rfl⟩)⟩

theorem aggregateForStorage_error {rows : List LoadedCharge} :
    (∃ e, aggregateForStorage rows = .error e) ↔ MixesCurrencies rows ∨ SumRaises rows := by
  rw [aggregateForStorage, Loop.mapM_error]
  constructor
  · rintro ⟨p, hp, herr⟩
    obtain ⟨hrows, _⟩ := mem_groupRows.1 hp
    rcases aggregateBucket_error.1 herr with ⟨c, hc, c', hc', hne⟩ | hfits
    · rw [hrows, mem_bucket] at hc hc'
      exact .inl ⟨c, hc.1, c', hc'.1, hc.2.trans hc'.2.symm, hne⟩
    · exact .inr ⟨p.1, hrows ▸ hfits⟩
  · rintro (⟨c, hc, c', hc', hkey, hne⟩ | ⟨key, hfits⟩)
    · refine ⟨_, mem_groupRows_bucket hc, aggregateBucket_error.2 (.inl ⟨c, ?_, c', ?_, hne⟩)⟩
      · exact mem_bucket.2 ⟨hc, rfl⟩
      · exact mem_bucket.2 ⟨hc', hkey.symm⟩
    · have hne : bucket bucketKey rows key ≠ [] := by
        intro hnil
        rw [hnil] at hfits
        exact hfits ⟨_, _, totals_nil⟩
      exact ⟨(key, bucket bucketKey rows key), mem_groupRows.2 ⟨rfl, hne⟩,
        aggregateBucket_error.2 (.inr hfits)⟩

/-! ## What is returned -/

/-- The dedup key of an aggregate. -/
def LoadedAggregate.key (a : LoadedAggregate) : BucketKey :=
  (a.serviceCanonical.getD a.service, a.periodStart, a.periodEnd)

/-- An aggregate of the rows of one bucket. -/
structure AggregateOf (p : BucketKey × List LoadedCharge) (a : LoadedAggregate) : Prop where
  key : a.key = p.1
  totals : Totals p.2 a.billedCost a.amortizedCost
  count : a.chargeCount = p.2.length
  dicts : a.perRowTagDicts = p.2.map (·.tags)
  costs : a.perRowCosts = p.2.map fun c => (c.billedCost, c.amortizedCost)

theorem aggregateOf_bucket {p : BucketKey × List LoadedCharge} {a : LoadedAggregate}
    (hkey : ∀ c ∈ p.2, bucketKey c = p.1) (h : aggregateBucket p = .ok a) : AggregateOf p a := by
  have hmode := getD_mode fun c hc => congrArg Prod.fst (hkey c hc)
  have htotals := totals_of_aggregateBucket h
  unfold aggregateBucket at h
  simp only at h
  split at h
  · cases h
  · obtain ⟨billed, _, h⟩ := Loop.bind_ok.1 h
    obtain ⟨amortized, _, h⟩ := Loop.bind_ok.1 h
    cases h
    exact ⟨Prod.ext hmode.1 rfl, htotals, rfl, rfl, rfl⟩

/-- The aggregates split the rows: each row is in the bucket of exactly one of them, with its tag
dict and its costs side by side. A total is the sum of the costs of the bucket, in the order of the
rows. -/
structure Partition (rows : List LoadedCharge) (aggs : List LoadedAggregate) : Prop where
  one : ∀ c ∈ rows, ∃! a, a ∈ aggs ∧ a.key = bucketKey c
  buckets : List.Perm (aggs.flatMap fun a => bucket bucketKey rows a.key) rows
  sideBySide : ∀ a ∈ aggs, a.perRowTagDicts.zip a.perRowCosts =
    (bucket bucketKey rows a.key).map fun c => (c.tags, c.billedCost, c.amortizedCost)
  parallel : ∀ a ∈ aggs, a.perRowTagDicts.length = a.chargeCount ∧
    a.perRowCosts.length = a.chargeCount
  billed : ∀ a ∈ aggs, Decimal.sum (a.perRowCosts.map (·.1)) = .ok a.billedCost
  amortized : ∀ a ∈ aggs, Decimal.sum (a.perRowCosts.map (·.2)) = .ok a.amortizedCost

section

variable {rows rows' : List LoadedCharge} {aggs aggs' : List LoadedAggregate}

theorem aggregateOf_mem (h : aggregateForStorage rows = .ok aggs) {a : LoadedAggregate}
    (ha : a ∈ aggs) :
    AggregateOf (a.key, bucket bucketKey rows a.key) a ∧ bucket bucketKey rows a.key ≠ [] := by
  obtain ⟨p, hp, hpa⟩ := Loop.mem_of_mapM h ha
  obtain ⟨hrows, hne⟩ := mem_groupRows.1 hp
  have hof := aggregateOf_bucket (fun c hc => (mem_bucket.1 (hrows ▸ hc)).2) hpa
  obtain ⟨key, l⟩ := p
  simp only at hrows hne
  obtain rfl := hrows
  obtain rfl := hof.key
  exact ⟨hof, hne⟩

theorem keys_of_aggregateForStorage (h : aggregateForStorage rows = .ok aggs) :
    aggs.map (·.key) = (groupRows bucketKey rows).keys := by
  have hall : ∀ {l : List (BucketKey × List LoadedCharge)} {as : List LoadedAggregate},
      (∀ p ∈ l, p ∈ (groupRows bucketKey rows).items) →
      List.Forall₂ (fun p a => aggregateBucket p = .ok a) l as →
      as.map (·.key) = l.map Prod.fst := by
    intro l as hl hf
    induction hf with
    | nil => rfl
    | cons hx _ ih =>
      rw [List.forall_mem_cons] at hl
      have hkey := aggregateOf_bucket
        (fun c hc => (mem_bucket.1 ((mem_groupRows.1 hl.1).1 ▸ hc)).2) hx
      rw [List.map_cons, List.map_cons, ih hl.2, hkey.key]
  exact hall (fun _ hp => hp) (Loop.mapM_ok h)

theorem nodup_key (h : aggregateForStorage rows = .ok aggs) : (aggs.map (·.key)).Nodup := by
  rw [keys_of_aggregateForStorage h]
  exact (groupRows bucketKey rows).nodup

theorem mem_key (h : aggregateForStorage rows = .ok aggs) {key : BucketKey} :
    key ∈ aggs.map (·.key) ↔ ∃ c ∈ rows, bucketKey c = key := by
  rw [keys_of_aggregateForStorage h, groupRows,
    Dict.mem_keys_foldl_update bucketKey fun rows c => rows.getD [] ++ [c]]
  simp [Dict.keys, Dict.empty]

theorem partition_of_ok (h : aggregateForStorage rows = .ok aggs) : Partition rows aggs := by
  have hof : ∀ a ∈ aggs, AggregateOf (a.key, bucket bucketKey rows a.key) a :=
    fun a ha => (aggregateOf_mem h ha).1
  constructor
  · intro c hc
    obtain ⟨a, ha, hkey⟩ := List.mem_map.1 ((mem_key h).2 ⟨c, hc, rfl⟩)
    refine ⟨a, ⟨ha, hkey⟩, fun a' h' => ?_⟩
    exact List.inj_on_of_nodup_map (nodup_key h) h'.1 ha (h'.2.trans hkey.symm)
  · rw [← List.flatMap_map]
    exact Dict.flatMap_filter_perm bucketKey (nodup_key h) rows
      fun c hc => (mem_key h).2 ⟨c, hc, rfl⟩
  · intro a ha
    rw [(hof a ha).dicts, (hof a ha).costs, List.zip_map']
  · intro a ha
    rw [(hof a ha).dicts, (hof a ha).costs, (hof a ha).count]
    simp
  · intro a ha
    rw [(hof a ha).costs, List.map_map]
    exact (hof a ha).totals.billed
  · intro a ha
    rw [(hof a ha).costs, List.map_map]
    exact (hof a ha).totals.amortized

/-! ## Another order -/

theorem bucket_perm {κ : Type} [DecidableEq κ] (key : LoadedCharge → κ)
    (hperm : List.Perm rows rows') (k : κ) :
    List.Perm (bucket key rows k) (bucket key rows' k) := hperm.filter _

/-- What the aggregates show of their buckets and keys, in any order of the rows. -/
theorem view_perm {α : Type} (view : LoadedAggregate → α) (of of' : BucketKey → α)
    (h : aggregateForStorage rows = .ok aggs) (h' : aggregateForStorage rows' = .ok aggs')
    (hperm : List.Perm rows rows') (hof : ∀ a ∈ aggs, view a = of a.key)
    (hof' : ∀ a ∈ aggs', view a = of' a.key) (hsame : of = of') :
    List.Perm (aggs.map view) (aggs'.map view) := by
  have hkeys : List.Perm (aggs.map (·.key)) (aggs'.map (·.key)) := by
    rw [List.perm_ext_iff_of_nodup (nodup_key h) (nodup_key h')]
    intro key
    simp only [mem_key h, mem_key h', hperm.mem_iff]
  have hmap : aggs.map view = (aggs.map (·.key)).map of := by
    rw [List.map_map]
    exact List.map_congr_left hof
  have hmap' : aggs'.map view = (aggs'.map (·.key)).map of := by
    rw [List.map_map, hsame]
    exact List.map_congr_left hof'
  rw [hmap, hmap']
  exact hkeys.map _

/-- The key and the count of an aggregate. -/
def keyCount (a : LoadedAggregate) : BucketKey × Nat := (a.key, a.chargeCount)

theorem keyCount_perm (h : aggregateForStorage rows = .ok aggs)
    (h' : aggregateForStorage rows' = .ok aggs') (hperm : List.Perm rows rows') :
    List.Perm (aggs.map keyCount) (aggs'.map keyCount) := by
  refine view_perm keyCount (fun key => (key, (bucket bucketKey rows key).length))
    (fun key => (key, (bucket bucketKey rows' key).length)) h h' hperm ?_ ?_ ?_
  · intro a ha
    rw [keyCount, (aggregateOf_mem h ha).1.count]
  · intro a ha
    rw [keyCount, (aggregateOf_mem h' ha).1.count]
  · funext key
    rw [(bucket_perm bucketKey hperm key).length_eq]

/-! ## Exact totals -/

/-- The costs of the rows as numbers. -/
def billedValues (rows : List LoadedCharge) : List Rat := rows.map (·.billedCost.value)

def amortizedValues (rows : List LoadedCharge) : List Rat := rows.map (·.amortizedCost.value)

/-- The costs are finite, and those of one key together fit in 28 digits. -/
structure ExactCosts {κ : Type} [DecidableEq κ] (key : LoadedCharge → κ)
    (rows : List LoadedCharge) : Prop where
  finite : ∀ c ∈ rows, FiniteCosts c
  billed : ∀ k, ∃ d, Decimal.FitsDigits d (billedValues (bucket key rows k))
  amortized : ∀ k, ∃ d, Decimal.FitsDigits d (amortizedValues (bucket key rows k))

theorem ExactCosts.perm {κ : Type} [DecidableEq κ] {key : LoadedCharge → κ}
    (h : ExactCosts key rows) (hperm : List.Perm rows rows') : ExactCosts key rows' where
  finite := fun c hc => h.finite c (hperm.mem_iff.2 hc)
  billed := fun k => by
    obtain ⟨d, hd⟩ := h.billed k
    exact ⟨d, hd.perm ((bucket_perm key hperm k).map _)⟩
  amortized := fun k => by
    obtain ⟨d, hd⟩ := h.amortized k
    exact ⟨d, hd.perm ((bucket_perm key hperm k).map _)⟩

theorem ExactCosts.totals {κ : Type} [DecidableEq κ] {key : LoadedCharge → κ}
    (h : ExactCosts key rows) (k : κ) :
    Totals (bucket key rows k) (.finite (billedValues (bucket key rows k)).sum)
      (.finite (amortizedValues (bucket key rows k)).sum) := by
  have hfinite : ∀ c ∈ bucket key rows k, FiniteCosts c :=
    fun c hc => h.finite c (mem_bucket.1 hc).1
  obtain ⟨d, hd⟩ := h.billed k
  obtain ⟨d', hd'⟩ := h.amortized k
  constructor
  · have hfits : Decimal.FitsDigits d
        (((bucket key rows k).map (·.billedCost)).map Decimal.value) := by rwa [List.map_map]
    have hsum := Decimal.sum_values (by simpa using fun c hc => (hfinite c hc).1) hfits
    rwa [List.map_map] at hsum
  · have hfits : Decimal.FitsDigits d'
        (((bucket key rows k).map (·.amortizedCost)).map Decimal.value) := by rwa [List.map_map]
    have hsum := Decimal.sum_values (by simpa using fun c hc => (hfinite c hc).2) hfits
    rwa [List.map_map] at hsum

/-- No cost is lost: an aggregate has the sums of its costs, and all of them those of the rows. -/
structure ExactTotals (rows : List LoadedCharge) (aggs : List LoadedAggregate) : Prop where
  billed : ∀ a ∈ aggs, a.billedCost = .finite (a.perRowCosts.map (·.1.value)).sum
  amortized : ∀ a ∈ aggs, a.amortizedCost = .finite (a.perRowCosts.map (·.2.value)).sum
  totalBilled : (aggs.map (·.billedCost.value)).sum = (billedValues rows).sum
  totalAmortized : (aggs.map (·.amortizedCost.value)).sum = (amortizedValues rows).sum

theorem totals_of_mem (hexact : ExactCosts bucketKey rows)
    (h : aggregateForStorage rows = .ok aggs) {a : LoadedAggregate} (ha : a ∈ aggs) :
    a.billedCost = .finite (billedValues (bucket bucketKey rows a.key)).sum ∧
      a.amortizedCost = .finite (amortizedValues (bucket bucketKey rows a.key)).sum :=
  (aggregateOf_mem h ha).1.totals.unique (hexact.totals a.key)

theorem exactTotals_of_ok (hexact : ExactCosts bucketKey rows)
    (h : aggregateForStorage rows = .ok aggs) : ExactTotals rows aggs := by
  have htotals := fun a ha => totals_of_mem hexact h (a := a) ha
  have hcosts := fun a ha => (aggregateOf_mem h (a := a) ha).1.costs
  -- a total over the rows, bucket by bucket
  have hgrand : ∀ f : LoadedCharge → Rat,
      (aggs.map fun a => ((bucket bucketKey rows a.key).map f).sum).sum = (rows.map f).sum := by
    intro f
    rw [← ((partition_of_ok h).buckets.map f).sum_eq, List.map_flatMap, List.flatMap,
      List.sum_flatten, List.map_map]
    rfl
  refine ⟨?_, ?_, ?_, ?_⟩
  · intro a ha
    rw [(htotals a ha).1, hcosts a ha, List.map_map]
    rfl
  · intro a ha
    rw [(htotals a ha).2, hcosts a ha, List.map_map]
    rfl
  · rw [List.map_congr_left fun a ha => congrArg Decimal.value (htotals a ha).1]
    exact hgrand _
  · rw [List.map_congr_left fun a ha => congrArg Decimal.value (htotals a ha).2]
    exact hgrand _

/-- The key, totals and count of an aggregate. -/
def summary (a : LoadedAggregate) : BucketKey × Decimal × Decimal × Nat :=
  (a.key, a.billedCost, a.amortizedCost, a.chargeCount)

def bucketSummary (rows : List LoadedCharge) (key : BucketKey) :
    BucketKey × Decimal × Decimal × Nat :=
  (key, .finite (billedValues (bucket bucketKey rows key)).sum,
    .finite (amortizedValues (bucket bucketKey rows key)).sum, (bucket bucketKey rows key).length)

theorem summary_perm (hexact : ExactCosts bucketKey rows)
    (h : aggregateForStorage rows = .ok aggs) (h' : aggregateForStorage rows' = .ok aggs')
    (hperm : List.Perm rows rows') : List.Perm (aggs.map summary) (aggs'.map summary) := by
  have hof : ∀ {rows aggs}, ExactCosts bucketKey rows → aggregateForStorage rows = .ok aggs →
      ∀ a ∈ aggs, summary a = bucketSummary rows a.key := by
    intro rows aggs hexact h a ha
    obtain ⟨hbilled, hamortized⟩ := totals_of_mem hexact h ha
    rw [summary, bucketSummary, hbilled, hamortized, (aggregateOf_mem h ha).1.count]
  refine view_perm summary _ _ h h' hperm (hof hexact h) (hof (hexact.perm hperm) h') ?_
  funext key
  have hbucket := bucket_perm bucketKey hperm key
  simp only [bucketSummary, billedValues, amortizedValues, (hbucket.map _).sum_eq,
    hbucket.length_eq]

theorem ExactCosts.error_iff (hexact : ExactCosts bucketKey rows) :
    (∃ e, aggregateForStorage rows = .error e) ↔ MixesCurrencies rows := by
  have hfits : ¬ SumRaises rows := by
    rintro ⟨key, hno⟩
    exact hno ⟨_, _, hexact.totals key⟩
  rw [aggregateForStorage_error]
  simp [hfits]

end

/-- Rows are refused exactly when a bucket would mix currencies or has no sum. Otherwise the
aggregates partition them, and in another order the rows give the same keys and counts. With costs
that fit, currencies are the only reason to refuse, no cost is lost, and the totals do not depend on
the order either. -/
theorem aggregateForStorage_splits (rows : List LoadedCharge) :
    ((∃ e, aggregateForStorage rows = .error e) ↔ MixesCurrencies rows ∨ SumRaises rows) ∧
    (∀ aggs, aggregateForStorage rows = .ok aggs → Partition rows aggs) ∧
    (∀ rows' aggs aggs', List.Perm rows rows' → aggregateForStorage rows = .ok aggs →
      aggregateForStorage rows' = .ok aggs' →
        List.Perm (aggs.map keyCount) (aggs'.map keyCount)) ∧
    (ExactCosts bucketKey rows →
      ((∃ e, aggregateForStorage rows = .error e) ↔ MixesCurrencies rows) ∧
      (∀ aggs, aggregateForStorage rows = .ok aggs → ExactTotals rows aggs) ∧
      ∀ rows', List.Perm rows rows' →
        ((∃ e, aggregateForStorage rows' = .error e) ↔ MixesCurrencies rows) ∧
        ∀ aggs aggs', aggregateForStorage rows = .ok aggs → aggregateForStorage rows' = .ok aggs' →
          List.Perm (aggs.map summary) (aggs'.map summary)) := by
  refine ⟨aggregateForStorage_error, fun aggs h => partition_of_ok h,
    fun rows' aggs aggs' hperm h h' => keyCount_perm h h' hperm, fun hexact => ?_⟩
  refine ⟨hexact.error_iff, fun aggs h => exactTotals_of_ok hexact h, fun rows' hperm => ?_⟩
  refine ⟨?_, fun aggs aggs' h h' => summary_perm hexact h h' hperm⟩
  rw [(hexact.perm hperm).error_iff]
  simp only [MixesCurrencies, hperm.mem_iff]

/-- A tagged and an untagged row are two input rows of one aggregate. -/
theorem two_rows_split : ∃ aggs,
    aggregateForStorage [sampleRow web (.finite 3), sampleRow .empty (.finite 97)] = .ok aggs ∧
      ExactTotals [sampleRow web (.finite 3), sampleRow .empty (.finite 97)] aggs := by
  have hexact : ExactCosts bucketKey
      [sampleRow web (.finite 3), sampleRow .empty (.finite 97)] := by
    have hbilled : Decimal.FitsDigits 0
        (billedValues [sampleRow web (.finite 3), sampleRow .empty (.finite 97)]) := by
      decide +kernel
    have hamortized : Decimal.FitsDigits 0
        (amortizedValues [sampleRow web (.finite 3), sampleRow .empty (.finite 97)]) := by
      decide +kernel
    refine ⟨?_, ?_, ?_⟩
    · intro c hc
      simp only [List.mem_cons, List.not_mem_nil, or_false] at hc
      rcases hc with rfl | rfl
      · exact ⟨rfl, rfl⟩
      · exact ⟨rfl, rfl⟩
    · exact fun k => ⟨0, hbilled.sublist (List.filter_sublist.map _)⟩
    · exact fun k => ⟨0, hamortized.sublist (List.filter_sublist.map _)⟩
  obtain ⟨_, _, _, hcosts⟩ :=
    aggregateForStorage_splits [sampleRow web (.finite 3), sampleRow .empty (.finite 97)]
  obtain ⟨herror, htotals, _⟩ := hcosts hexact
  cases h : aggregateForStorage [sampleRow web (.finite 3), sampleRow .empty (.finite 97)] with
  | error e =>
    have hmix := herror.1 ⟨e, h⟩
    simp [MixesCurrencies, sampleRow] at hmix
  | ok aggs => exact ⟨aggs, rfl, htotals aggs h⟩

/-- `10 ^ 28` and two times 5, in this order. -/
def largeFirst : List LoadedCharge :=
  [sampleRow web (.finite (10 ^ 28)), sampleRow web (.finite 5), sampleRow web (.finite 5)]

def largeLast : List LoadedCharge :=
  [sampleRow web (.finite 5), sampleRow web (.finite 5), sampleRow web (.finite (10 ^ 28))]

/-- One row in one currency raises on a signaling NaN. A total of 29 digits loses both fives when
they come last, and keeps them when they come first. -/
theorem totals_round : (∃ e, aggregateForStorage [sampleRow web (.nan true)] = .error e) ∧
    ¬ MixesCurrencies [sampleRow web (.nan true)] ∧ List.Perm largeFirst largeLast ∧
    (aggregateForStorage largeFirst).map (·.map (·.billedCost)) = .ok [.finite (10 ^ 28)] ∧
    (aggregateForStorage largeLast).map (·.map (·.billedCost)) = .ok [.finite (10 ^ 28 + 10)] := by
  refine ⟨⟨_, rfl⟩, ?_, ?_, ?_, ?_⟩
  · simp [MixesCurrencies]
  · decide +kernel
  · decide +kernel
  · decide +kernel

end Loader

end Focus

end Constat
