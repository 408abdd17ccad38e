import Constat.Focus.LoadedCosts
import Constat.Focus.Partition

/-!
# Focus.Transparency

Chargeback over the stored aggregates against chargeback over the raw rows. What `aggregate_by_tag`
returns depends only on the bag of contributions (`costSummary_perm`), and an aggregate contributes
what its rows do (`contributions_chargeOf`), so pre-aggregation changes no bucket. The costs are
rational numbers: `Focus.ExactCosts` says when the decimals of the program give the same.

* `Loaded` — a row as the loader yields it: the catalog has no empty canonical name.
* `chargeOf` — a storage aggregate as one charge with its per-row tags and costs.
* `costSummary` — key, totals and count of one output bucket.

The recorded `service_canonical` is the exception. A row without one may have another row's
canonical name as its native name; its tag bucket has no `service_canonical` on the raw rows, and
that of the other row after aggregation (`SameBuckets.canonical`).
-/

namespace Constat

namespace Focus

/-! ## Buckets of contributions -/

/-- What `xs` adds up to in the bucket `k`. -/
def bucketTotal (xs : List Contribution) (k : CostKey) : Rat × Rat × Nat :=
  (((xs.filter fun x => x.key = k).map (·.billed)).sum,
    ((xs.filter fun x => x.key = k).map (·.amortized)).sum, (xs.filter fun x => x.key = k).length)

def sumsOf (xs : List Contribution) : Dict CostKey (Rat × Rat × Nat) :=
  xs.foldl (fun d x => d.update x.key fun o => addSums o x) .empty

theorem foldl_addSums (l : List Contribution) (v : Rat × Rat × Nat) :
    l.foldl (fun o x => some (addSums o x)) (some v) =
      some (v.1 + (l.map (·.billed)).sum, v.2.1 + (l.map (·.amortized)).sum, v.2.2 + l.length) := by
  induction l generalizing v with
  | nil => simp
  | cons x l ih =>
    rw [List.foldl_cons, ih]
    simp [addSums, add_assoc, add_comm 1]

theorem get?_sumsOf (xs : List Contribution) (k : CostKey) :
    (sumsOf xs).get? k =
      if (xs.filter fun x => x.key = k) = [] then none else some (bucketTotal xs k) := by
  rw [sumsOf, Dict.get?_foldl_update (fun x : Contribution => x.key) addSums, Dict.get?_empty,
    bucketTotal]
  cases xs.filter fun x => x.key = k with
  | nil => rfl
  | cons x l =>
    rw [if_neg (List.cons_ne_nil x l), List.foldl_cons, foldl_addSums]
    simp [addSums, add_comm 1]

theorem bucketTotal_perm {xs ys : List Contribution} (h : List.Perm xs ys) (k : CostKey) :
    bucketTotal xs k = bucketTotal ys k := by
  have hf := h.filter fun x => decide (x.key = k)
  simp only [bucketTotal, (hf.map _).sum_eq, hf.length_eq]

/-- The key, totals and count of one output row. -/
def costSummary (a : AggregatedCost) : CostKey × Rat × Rat × Nat :=
  (outputKey a, a.billedCost, a.amortizedCost, a.chargeCount)

section

variable {charges : List FocusCharge} {tagKey : String} {out : List AggregatedCost}

theorem map_costSummary (h : aggregateByTag charges tagKey = .ok out) :
    out.map costSummary = (sumsOf (charges.flatMap (contributions tagKey))).items := by
  rw [eq_of_aggregateByTag h, sums_foldl_addCharge, List.map_map]
  exact List.map_id _

/-- One bucket a key, and the totals of its contributions in each. -/
theorem mem_costSummary (h : aggregateByTag charges tagKey = .ok out)
    {p : CostKey × Rat × Rat × Nat} : p ∈ out.map costSummary ↔
      (∃ x ∈ charges.flatMap (contributions tagKey), x.key = p.1) ∧
        p.2 = bucketTotal (charges.flatMap (contributions tagKey)) p.1 := by
  rw [map_costSummary h, Dict.mem_items, get?_sumsOf]
  split
  · rename_i hnil
    have hno : ¬ ∃ x ∈ charges.flatMap (contributions tagKey), x.key = p.1 := by
      rintro ⟨x, hx, hk⟩
      exact List.filter_eq_nil_iff.1 hnil x hx (decide_eq_true hk)
    simp only [hno, false_and, reduceCtorEq]
  · rename_i hne
    obtain ⟨x, hx⟩ := List.exists_mem_of_ne_nil _ hne
    obtain ⟨hmem, hk⟩ := List.mem_filter.1 hx
    simp only [Option.some.injEq, eq_comm (a := p.2), iff_and_self]
    exact fun _ => ⟨x, hmem, of_decide_eq_true hk⟩

theorem nodup_costSummary (h : aggregateByTag charges tagKey = .ok out) :
    (out.map outputKey).Nodup := by
  have hkeys : out.map outputKey = (sumsOf (charges.flatMap (contributions tagKey))).keys := by
    rw [Dict.keys, ← map_costSummary h, List.map_map]
    rfl
  rw [hkeys]
  exact (sumsOf _).nodup

/-- The buckets depend on the bag of contributions alone. -/
theorem costSummary_perm {charges' : List FocusCharge} {out' : List AggregatedCost}
    (h : aggregateByTag charges tagKey = .ok out) (h' : aggregateByTag charges' tagKey = .ok out')
    (hperm : List.Perm (charges.flatMap (contributions tagKey))
      (charges'.flatMap (contributions tagKey))) :
    List.Perm (out.map costSummary) (out'.map costSummary) := by
  rw [map_costSummary h, map_costSummary h', Dict.perm_items_iff]
  intro k
  have hlength := (hperm.filter fun x => decide (x.key = k)).length_eq
  simp only [get?_sumsOf, bucketTotal_perm hperm, ← List.length_eq_zero_iff, hlength]

end

/-! ## Aggregates as charges -/

/-- A row the loader yields. -/
structure Loaded (c : FocusCharge) : Prop where
  row : LoaderRow c
  canonical : c.serviceCanonical ≠ some ""

/-- A storage aggregate as one charge of the account, its rows side by side. -/
def chargeOf (accountId accountName : String) (agg : AggregatedFocusCharge) : FocusCharge where
  accountId := accountId
  accountName := accountName
  service := agg.service
  region := agg.region
  pricingCategory := agg.pricingCategory
  periodStart := agg.periodStart
  periodEnd := agg.periodEnd
  billedCost := agg.billedCost
  amortizedCost := agg.amortizedCost
  resourceId := agg.resourceId
  subAccountId := agg.subAccountId
  tags := agg.perRowTagDicts
  billingCurrency := agg.billingCurrency
  perRowCosts := agg.perRowCosts
  serviceCanonical := agg.serviceCanonical

/-- What a loader row contributes. -/
def rowContribution (tagKey : String) (c : FocusCharge) : Contribution :=
  ⟨costKey c (serviceKey c) (ownValue tagKey c), c.billedCost, c.amortizedCost,
    bucketTags tagKey (rowTags c)⟩

theorem contributions_loader {c : FocusCharge} (h : LoaderRow c) (tagKey : String) :
    contributions tagKey c = [rowContribution tagKey c] := by
  obtain ⟨d, htags, hcosts⟩ := h
  simp [contributions, costRows, htags, hcosts, rowContribution, ownValue, rowTags]

theorem orStr_eq_getD {o : Option String} (h : o ≠ some "") (s : String) :
    orStr o s = o.getD s := by
  cases o with
  | none => rfl
  | some v =>
    have hv : v ≠ "" := fun he => h (he ▸ rfl)
    rw [orStr, truthy_of_ne hv]

section

variable {rows : List FocusCharge} {aggs : List AggregatedFocusCharge} {account name : String}

theorem serviceKey_chargeOf (h : aggregateForStorage rows = .ok aggs) {agg : AggregatedFocusCharge}
    (hagg : agg ∈ aggs) : serviceKey (chargeOf account name agg) = agg.key.1 :=
  orStr_eq_getD ((aggregateForStorage_mem h).2 agg hagg).canonical _

theorem group_ne_nil (h : aggregateForStorage rows = .ok aggs) {agg : AggregatedFocusCharge}
    (hagg : agg ∈ aggs) : group rows agg.key ≠ [] := (aggregateBucket_of_mem h hagg).1

/-- An aggregate contributes what the rows of its group do. -/
theorem contributions_chargeOf (hrows : ∀ c ∈ rows, LoaderRow c ∧ c.accountId = account)
    (h : aggregateForStorage rows = .ok aggs) (name tagKey : String) {agg : AggregatedFocusCharge}
    (hagg : agg ∈ aggs) : contributions tagKey (chargeOf account name agg) =
      (group rows agg.key).map (rowContribution tagKey) := by
  have hpart := partition_of_ok (fun c hc => (hrows c hc).1) h
  have hne : (chargeOf account name agg).perRowCosts ≠ [] := by
    rw [← List.length_pos_iff]
    have hpos := List.length_pos_iff.2 (group_ne_nil h hagg)
    rw [← hpart.count agg hagg, ← (hpart.parallel agg hagg).2] at hpos
    exact hpos
  have hzip : (chargeOf account name agg).tags.zip (chargeOf account name agg).perRowCosts =
      (group rows agg.key).map fun c => (rowTags c, c.cost) := hpart.sideBySide agg hagg
  rw [contributions, if_pos hne, costRows, hzip, List.map_map]
  refine List.map_congr_left fun c hc => ?_
  obtain ⟨hmem, hkey⟩ := mem_group.1 hc
  have hcurrency := ((aggregateForStorage_mem h).2 agg hagg).currency c hc
  have hcostKey : costKey (chargeOf account name agg) (serviceKey (chargeOf account name agg)) =
      costKey c (serviceKey c) := by
    funext v
    rw [serviceKey_chargeOf h hagg, ← hkey]
    have hstart : agg.periodStart = c.periodStart := congrArg (·.2.1) hkey.symm
    have hend : agg.periodEnd = c.periodEnd := congrArg (·.2.2) hkey.symm
    simp only [costKey, chargeOf, (hrows c hmem).2, hcurrency, hstart, hend, bucketKey]
  simp only [Function.comp_apply, hcostKey, rowContribution, ownValue, FocusCharge.cost]

theorem flatMap_contributions (hrows : ∀ c ∈ rows, LoaderRow c) (tagKey : String) :
    rows.flatMap (contributions tagKey) = rows.map (rowContribution tagKey) := by
  rw [List.flatMap_congr fun c hc => contributions_loader (hrows c hc) tagKey]
  exact List.flatMap_pure_eq_map _ _

/-- The aggregates contribute the bag of the rows. -/
theorem contributions_perm (hrows : ∀ c ∈ rows, LoaderRow c ∧ c.accountId = account)
    (h : aggregateForStorage rows = .ok aggs) (name tagKey : String) :
    List.Perm ((aggs.map (chargeOf account name)).flatMap (contributions tagKey))
      (rows.flatMap (contributions tagKey)) := by
  have hpart := partition_of_ok (fun c hc => (hrows c hc).1) h
  rw [flatMap_contributions fun c hc => (hrows c hc).1, List.flatMap_map,
    List.flatMap_congr fun agg hagg => contributions_chargeOf hrows h name tagKey hagg,
    ← List.map_flatMap]
  exact hpart.groups.map _

end

/-! ## The recorded canonical name -/

theorem canonical_addContributions (xs : List Contribution) (b : TagBuckets) :
    (xs.foldl addContribution b).canonical = b.canonical := by
  induction xs generalizing b with
  | nil => rfl
  | cons x xs ih => exact ih (addContribution b x)

theorem canonical_rememberName (b : TagBuckets) (c : FocusCharge) :
    (rememberName b c).canonical = b.canonical := by
  unfold rememberName
  split <;> rfl

/-- A charge with a canonical name records it in the buckets it contributes to. -/
def Names (tagKey : String) (k : CostKey) (c : FocusCharge) : Prop :=
  c.serviceCanonical ≠ none ∧ ∃ x ∈ contributions tagKey c, x.key = k

instance (tagKey : String) (k : CostKey) (c : FocusCharge) : Decidable (Names tagKey k c) :=
  inferInstanceAs (Decidable (_ ∧ _))

theorem get?_canonical_addCharge {c : FocusCharge} (hcosts : c.perRowCosts ≠ [])
    (hcanon : c.serviceCanonical ≠ some "") (tagKey : String) (b : TagBuckets) (k : CostKey) :
    (addCharge tagKey b c).canonical.get? k =
      if Names tagKey k c then some k.service else b.canonical.get? k := by
  cases hname : c.serviceCanonical with
  | none =>
    have hno : ¬ Names tagKey k c := fun h => h.1 hname
    rw [if_neg hno, addCharge, hname]
    simp only [canonical_addContributions, canonical_rememberName]
  | some name =>
    have hservice : ∀ x ∈ contributions tagKey c, x.key.service = name := by
      intro x hx
      rw [contributions, if_pos hcosts] at hx
      obtain ⟨_, _, rfl⟩ := List.mem_map.1 hx
      have hkey : serviceKey c = name := by
        rw [serviceKey, orStr_eq_getD hcanon, hname, Option.getD_some]
      exact hkey
    have hkeys : ∀ b', canonicalKeys tagKey c b' = (contributions tagKey c).map (·.key) :=
      fun b' => if_neg fun h => hcosts h.1
    rw [addCharge, hname]
    simp only [hkeys, canonical_addContributions, canonical_rememberName]
    rw [Dict.get?_foldl_set (fun k : CostKey => k) (fun _ => name) _ _ _ fun _ _ _ _ _ => rfl]
    by_cases h : Names tagKey k c
    · obtain ⟨_, x, hx, hk⟩ := h
      rw [if_pos ⟨by simp [hname], x, hx, hk⟩]
      cases hfind : ((contributions tagKey c).map (·.key)).find? fun k' => k' = k with
      | none =>
        exact absurd (decide_eq_true hk) (List.find?_eq_none.1 hfind _ (List.mem_map_of_mem hx))
      | some k' => rw [← hk, hservice x hx]
    · have hfind : ((contributions tagKey c).map (·.key)).find? (fun k' => k' = k) = none := by
        rw [List.find?_eq_none]
        intro k' hk' he
        obtain ⟨x, hx, rfl⟩ := List.mem_map.1 hk'
        exact h ⟨by simp [hname], x, hx, of_decide_eq_true he⟩
      rw [if_neg h, hfind]

theorem get?_canonical {charges : List FocusCharge}
    (h : ∀ c ∈ charges, c.perRowCosts ≠ [] ∧ c.serviceCanonical ≠ some "") (tagKey : String)
    (b : TagBuckets) (k : CostKey) :
    (charges.foldl (addCharge tagKey) b).canonical.get? k =
      if ∃ c ∈ charges, Names tagKey k c then some k.service else b.canonical.get? k := by
  induction charges generalizing b with
  | nil => simp
  | cons c charges ih =>
    rw [List.forall_mem_cons] at h
    rw [List.foldl_cons, ih h.2, get?_canonical_addCharge h.1.1 h.1.2]
    by_cases htail : ∃ c ∈ charges, Names tagKey k c
    · simp [htail]
    · simp [htail]

/-- An output row has the canonical name of its key, if some charge in its bucket has one. -/
theorem serviceCanonical_of_byTag {charges : List FocusCharge} {tagKey : String}
    {out : List AggregatedCost}
    (hcharges : ∀ c ∈ charges, c.perRowCosts ≠ [] ∧ c.serviceCanonical ≠ some "")
    (h : aggregateByTag charges tagKey = .ok out) {a : AggregatedCost} (ha : a ∈ out) :
    a.serviceCanonical =
      if ∃ c ∈ charges, Names tagKey (outputKey a) c then some a.service else none := by
  rw [eq_of_aggregateByTag h] at ha
  obtain ⟨p, _, rfl⟩ := List.mem_map.1 ha
  exact get?_canonical hcharges tagKey .empty p.1

section

variable {rows : List FocusCharge} {aggs : List AggregatedFocusCharge} {account name : String}
  {tagKey : String}

theorem Loaded.costs {c : FocusCharge} (h : Loaded c) :
    c.perRowCosts ≠ [] ∧ c.serviceCanonical ≠ some "" := by
  obtain ⟨d, _, hcosts⟩ := h.row
  exact ⟨by simp [hcosts], h.canonical⟩

theorem names_loaded {c : FocusCharge} (h : Loaded c) (k : CostKey) :
    Names tagKey k c ↔ c.serviceCanonical ≠ none ∧ (rowContribution tagKey c).key = k := by
  rw [Names, contributions_loader h.row]
  simp

/-- The key of a stored bucket. -/
def CostKey.bucket (k : CostKey) : BucketKey := (k.service, k.periodStart, k.periodEnd)

theorem canonical_of_group (hrows : ∀ c ∈ rows, Loaded c) (h : aggregateForStorage rows = .ok aggs)
    {agg : AggregatedFocusCharge} (hagg : agg ∈ aggs) :
    agg.serviceCanonical ≠ none ↔ ∃ c ∈ group rows agg.key, c.serviceCanonical ≠ none := by
  rw [(aggregateBucket_fields (aggregateBucket_of_mem h hagg).2).canonical]
  constructor
  · intro hmode
    obtain ⟨v, hv⟩ := Option.ne_none_iff_exists'.1 hmode
    obtain ⟨c, hc, hcv⟩ := List.mem_map.1 (mem_of_mode hv).1
    exact ⟨c, hc, by simp [hcv]⟩
  · rintro ⟨c, hc, hcv⟩ hmode
    have htruthy := mode_eq_none hmode _ (List.mem_map_of_mem hc)
    obtain ⟨v, hv⟩ := Option.ne_none_iff_exists'.1 hcv
    have hne : v ≠ "" := fun he => (hrows c (mem_group.1 hc).1).canonical (he ▸ hv)
    rw [hv, truthy_of_ne hne] at htruthy
    cases htruthy

/-- Over the aggregates a bucket has a canonical name if any row of its service and period has. -/
theorem names_chargeOf (hrows : ∀ c ∈ rows, Loaded c ∧ c.accountId = account)
    (h : aggregateForStorage rows = .ok aggs) (name : String) {k : CostKey}
    (hk : ∃ c ∈ rows, (rowContribution tagKey c).key = k) :
    (∃ c ∈ aggs.map (chargeOf account name), Names tagKey k c) ↔
      ∃ c ∈ rows, bucketKey c = k.bucket ∧ c.serviceCanonical ≠ none := by
  have hloader : ∀ c ∈ rows, LoaderRow c ∧ c.accountId = account :=
    fun c hc => ⟨(hrows c hc).1.row, (hrows c hc).2⟩
  simp only [List.mem_map, exists_exists_and_eq_and, Names]
  constructor
  · rintro ⟨agg, hagg, hcanon, x, hx, hxk⟩
    rw [contributions_chargeOf hloader h name tagKey hagg] at hx
    obtain ⟨c, hc, rfl⟩ := List.mem_map.1 hx
    obtain ⟨c', hc', hcanon'⟩ :=
      (canonical_of_group (fun c hc => (hrows c hc).1) h hagg).1 hcanon
    refine ⟨c', (mem_group.1 hc').1, ?_, hcanon'⟩
    rw [(mem_group.1 hc').2, ← (mem_group.1 hc).2, ← hxk]
    rfl
  · rintro ⟨c', hc', hbucket, hcanon⟩
    obtain ⟨c, hc, hck⟩ := hk
    have hkey : bucketKey c = k.bucket := by rw [← hck]; rfl
    obtain ⟨agg, ⟨hagg, haggKey⟩, _⟩ :=
      (partition_of_ok (fun c hc => (hrows c hc).1.row) h).one c hc
    refine ⟨agg, hagg, (canonical_of_group (fun c hc => (hrows c hc).1) h hagg).2
      ⟨c', mem_group.2 ⟨hc', ?_⟩, hcanon⟩, rowContribution tagKey c, ?_, hck⟩
    · rw [haggKey, hkey, hbucket]
    · rw [contributions_chargeOf hloader h name tagKey hagg]
      exact List.mem_map_of_mem (mem_group.2 ⟨hc, haggKey.symm⟩)

end

/-! ## By period -/

/-- The tag buckets of one period row: its account, service, period and currency. -/
def inPeriod (p : AggregatedCost) (k : CostKey) : Bool :=
  k.accountId = p.accountId ∧ k.service = p.displayService ∧ some k.periodStart = p.periodStart ∧
    some k.periodEnd = p.periodEnd ∧ k.billingCurrency = p.billingCurrency

theorem orStr_mode_of_all {values : List String} {key : String} (h : ∀ v ∈ values, v = key) :
    orStr (mode (values.map some)) key = key := by
  cases hm : mode (values.map some) with
  | none => rfl
  | some v =>
    obtain ⟨hv, hne⟩ := mem_of_mode hm
    obtain ⟨w, hw, hwv⟩ := List.mem_map.1 hv
    rw [orStr, truthy_of_ne hne, Option.getD_some, ← Option.some.inj hwv]
    exact h w hw

theorem displayService_period {key : PeriodKey} {l : List FocusCharge}
    (hl : ∀ c ∈ l, periodKey c = key ∧ c.serviceCanonical ≠ some "") :
    (periodCost (key, l)).displayService = key.service := by
  have hservice : ∀ c ∈ l, serviceKey c = key.service :=
    fun c hc => congrArg PeriodKey.service (hl c hc).1
  unfold AggregatedCost.displayService
  simp only [periodCost]
  cases hfirst : l.findSome? (·.serviceCanonical) with
  | some v =>
    obtain ⟨c, hc, hcv⟩ := List.exists_of_findSome?_eq_some hfirst
    rw [← hservice c hc, serviceKey, hcv]
    have hne : v ≠ "" := fun he => (hl c hc).2 (he ▸ hcv)
    simp [orStr, truthy_of_ne hne]
  | none =>
    have hnative : ∀ v ∈ l.map (·.service), v = key.service := by
      intro v hv
      obtain ⟨c, hc, rfl⟩ := List.mem_map.1 hv
      have hnone := List.findSome?_eq_none_iff.1 hfirst c hc
      rw [← hservice c hc, serviceKey, hnone]
      rfl
    have hmode := orStr_mode_of_all hnative
    rw [List.map_map] at hmode
    exact hmode

section

variable {rows : List FocusCharge} {aggs : List AggregatedFocusCharge} {account name : String}
  {tagKey : String}

theorem mem_periodRows {p : PeriodKey × List FocusCharge} :
    p ∈ (periodRows rows).items ↔
      p.2 = rows.filter (fun c => periodKey c = p.1) ∧ p.2 ≠ [] := Dict.mem_items_group

theorem inPeriod_iff (hrows : ∀ c ∈ rows, Loaded c) {p : PeriodKey × List FocusCharge}
    (hp : p ∈ (periodRows rows).items) {c : FocusCharge} :
    inPeriod (periodCost p) (rowContribution tagKey c).key = true ↔ periodKey c = p.1 := by
  obtain ⟨hp2, _⟩ := mem_periodRows.1 hp
  have hdisplay : (periodCost p).displayService = p.1.service := by
    refine displayService_period fun c hc => ?_
    rw [hp2, List.mem_filter, decide_eq_true_eq] at hc
    exact ⟨hc.2, (hrows c hc.1).canonical⟩
  rw [inPeriod, decide_eq_true_eq, hdisplay]
  obtain ⟨⟨a, s, ps, pe, cur⟩, l⟩ := p
  simp [periodCost, periodKey, rowContribution, costKey]

/-- The buckets of a period row add up to it. -/
theorem totalCost_inPeriod (hrows : ∀ c ∈ rows, Loaded c) {out : List AggregatedCost}
    (h : aggregateByTag rows tagKey = .ok out) {p : AggregatedCost}
    (hp : p ∈ aggregateByPeriod rows) : totalCost out (inPeriod p) = p.cost := by
  obtain ⟨q, hq, rfl⟩ := List.mem_map.1 hp
  have hfilter : (rows.map (rowContribution tagKey)).filter
      (fun x => inPeriod (periodCost q) x.key) = q.2.map (rowContribution tagKey) := by
    rw [List.filter_map, (mem_periodRows.1 hq).1]
    refine congrArg _ (List.filter_congr fun c _ => ?_)
    rw [Bool.eq_iff_iff, decide_eq_true_eq]
    exact inPeriod_iff hrows hq
  rw [totalCost_aggregateByTag h, flatMap_contributions fun c hc => (hrows c hc).row, hfilter,
    List.map_map]
  exact sum_cost q.2

/-- Every row's bucket belongs to one period row. -/
theorem exists_inPeriod (hrows : ∀ c ∈ rows, Loaded c) {c : FocusCharge} (hc : c ∈ rows) :
    ∃! p, p ∈ aggregateByPeriod rows ∧ inPeriod p (rowContribution tagKey c).key = true := by
  have hmem : (periodKey c, rows.filter fun x => periodKey x = periodKey c) ∈
      (periodRows rows).items := by
    refine mem_periodRows.2 ⟨rfl, ?_⟩
    exact List.ne_nil_of_mem (List.mem_filter.2 ⟨hc, decide_eq_true rfl⟩)
  refine ⟨_, ⟨List.mem_map_of_mem hmem, (inPeriod_iff hrows hmem).2 rfl⟩, ?_⟩
  rintro p ⟨hp, hin⟩
  obtain ⟨q, hq, rfl⟩ := List.mem_map.1 hp
  have hkey := (inPeriod_iff hrows hq).1 hin
  exact congrArg periodCost (Prod.ext hkey.symm ((mem_periodRows.1 hq).1.trans (by rw [hkey])))

theorem totalCost_perm {out out' : List AggregatedCost}
    (h : List.Perm (out.map costSummary) (out'.map costSummary)) (q : CostKey → Bool) :
    totalCost out q = totalCost out' q := by
  have htotal : ∀ l : List AggregatedCost, totalCost l q =
      (((l.map costSummary).filter fun p => q p.1).map fun p => (p.2.1, p.2.2.1)).sum := by
    intro l
    rw [List.filter_map, List.map_map]
    rfl
  rw [htotal, htotal]
  exact ((h.filter _).map _).sum_eq

/-! ## Transparency -/

/-- Chargeback over the raw rows (`raw`) and over the aggregates (`pre`). -/
structure SameBuckets (rows : List FocusCharge) (raw pre : List AggregatedCost) : Prop where
  buckets : List.Perm (pre.map costSummary) (raw.map costSummary)
  service : ∀ a ∈ raw ++ pre, a.displayService = a.service
  canonical : ∀ a ∈ raw, ∀ a' ∈ pre, outputKey a' = outputKey a →
    (a'.serviceCanonical = a.serviceCanonical ↔
      ((∃ c ∈ rows, bucketKey c = (outputKey a).bucket ∧ c.serviceCanonical ≠ none) →
        a.serviceCanonical ≠ none))
  period : ∀ p ∈ aggregateByPeriod rows,
    totalCost raw (inPeriod p) = p.cost ∧ totalCost pre (inPeriod p) = p.cost
  covered : ∀ a ∈ raw ++ pre, ∃! p, p ∈ aggregateByPeriod rows ∧ inPeriod p (outputKey a) = true

theorem orStr_self (s : String) : orStr (some s) s = s := by
  by_cases h : s = "" <;> simp [orStr, truthy, h]

theorem displayService_of_byTag {charges : List FocusCharge} {out : List AggregatedCost}
    (hcharges : ∀ c ∈ charges, c.perRowCosts ≠ [] ∧ c.serviceCanonical ≠ some "")
    (h : aggregateByTag charges tagKey = .ok out) {a : AggregatedCost} (ha : a ∈ out) :
    a.displayService = a.service := by
  rw [AggregatedCost.displayService, serviceCanonical_of_byTag hcharges h ha]
  split
  · exact orStr_self a.service
  · rfl

theorem costs_chargeOf (hrows : ∀ c ∈ rows, LoaderRow c) (h : aggregateForStorage rows = .ok aggs)
    (account name : String) :
    ∀ c ∈ aggs.map (chargeOf account name),
      (c.perRowCosts ≠ [] ∧ c.serviceCanonical ≠ some "") ∧ unparallel c = false := by
  intro c hc
  obtain ⟨agg, hagg, rfl⟩ := List.mem_map.1 hc
  have hpart := partition_of_ok hrows h
  have hlength := hpart.parallel agg hagg
  refine ⟨⟨?_, ((aggregateForStorage_mem h).2 agg hagg).canonical⟩, ?_⟩
  · rw [← List.length_pos_iff]
    have hpos := List.length_pos_iff.2 (group_ne_nil h hagg)
    rwa [← hpart.count agg hagg, ← hlength.2] at hpos
  · simp [unparallel, chargeOf, hlength.1, hlength.2]

/-- The buckets of the aggregates are those of rows. -/
theorem exists_row (hrows : ∀ c ∈ rows, LoaderRow c) {out : List AggregatedCost}
    {charges : List FocusCharge} (h : aggregateByTag charges tagKey = .ok out)
    (hperm : List.Perm (charges.flatMap (contributions tagKey)) (rows.flatMap (contributions tagKey)))
    {a : AggregatedCost} (ha : a ∈ out) :
    ∃ c ∈ rows, (rowContribution tagKey c).key = outputKey a := by
  obtain ⟨⟨x, hx, hk⟩, _⟩ := (mem_costSummary h).1 (List.mem_map_of_mem ha)
  rw [hperm.mem_iff, flatMap_contributions hrows] at hx
  obtain ⟨c, hc, rfl⟩ := List.mem_map.1 hx
  exact ⟨c, hc, hk⟩

/-- Chargeback by tag over the storage aggregates of loader rows, each taken as one charge, has the
buckets of chargeback over the rows themselves, and over tag values they add up to the period
rows. -/
theorem aggregateByTag_transparent (hrows : ∀ c ∈ rows, Loaded c ∧ c.accountId = account)
    (h : aggregateForStorage rows = .ok aggs) (name tagKey : String) :
    (tagKey = "" → aggregateByTag rows tagKey = .error emptyTagKey ∧
      aggregateByTag (aggs.map (chargeOf account name)) tagKey = .error emptyTagKey) ∧
    (tagKey ≠ "" → ∃ raw pre, aggregateByTag rows tagKey = .ok raw ∧
      aggregateByTag (aggs.map (chargeOf account name)) tagKey = .ok pre ∧
      SameBuckets rows raw pre) := by
  constructor
  · intro htag
    simp [aggregateByTag, htag]
  intro htag
  have hloaded : ∀ c ∈ rows, Loaded c := fun c hc => (hrows c hc).1
  have hloader : ∀ c ∈ rows, LoaderRow c := fun c hc => (hrows c hc).1.row
  have hcosts := costs_chargeOf hloader h account name
  obtain ⟨raw, hraw⟩ := aggregateByTag_ok htag fun c hc => .inr (hloader c hc).parallel
  obtain ⟨pre, hpre⟩ := aggregateByTag_ok htag fun c hc => .inr (hcosts c hc).2
  have hperm := contributions_perm (fun c hc => ⟨hloader c hc, (hrows c hc).2⟩) h name tagKey
  have hbuckets := costSummary_perm hpre hraw hperm
  have hrow : ∀ a ∈ raw ++ pre, ∃ c ∈ rows, (rowContribution tagKey c).key = outputKey a := by
    intro a ha
    rcases List.mem_append.1 ha with ha | ha
    · exact exists_row hloader hraw (List.Perm.refl _) ha
    · exact exists_row hloader hpre hperm ha
  refine ⟨raw, pre, hraw, hpre, hbuckets, ?_, ?_, ?_, ?_⟩
  · intro a ha
    rcases List.mem_append.1 ha with ha | ha
    · exact displayService_of_byTag (fun c hc => (hloaded c hc).costs) hraw ha
    · exact displayService_of_byTag (fun c hc => (hcosts c hc).1) hpre ha
  · intro a ha a' ha' hkey
    have hservice : a'.service = a.service := congrArg CostKey.service hkey
    have hk := hrow a (List.mem_append_left _ ha)
    rw [serviceCanonical_of_byTag (fun c hc => (hloaded c hc).costs) hraw ha,
      serviceCanonical_of_byTag (fun c hc => (hcosts c hc).1) hpre ha', hkey, hservice]
    simp only [names_chargeOf hrows h name hk]
    -- a canonical name in the tag bucket is one of its service and period
    have himp : (∃ c ∈ rows, Names tagKey (outputKey a) c) →
        ∃ c ∈ rows, bucketKey c = (outputKey a).bucket ∧ c.serviceCanonical ≠ none := by
      rintro ⟨c, hc, hn⟩
      obtain ⟨hcanon, hck⟩ := (names_loaded (hloaded c hc) _).1 hn
      exact ⟨c, hc, by rw [← hck]; rfl, hcanon⟩
    by_cases hraw' : ∃ c ∈ rows, Names tagKey (outputKey a) c
    · rw [if_pos hraw', if_pos (himp hraw')]
      simp
    · rw [if_neg hraw']
      by_cases hpre' : ∃ c ∈ rows, bucketKey c = (outputKey a).bucket ∧ c.serviceCanonical ≠ none
      · rw [if_pos hpre']
        simp [hpre']
      · rw [if_neg hpre']
        simp only [hpre', false_implies]
  · intro p hp
    have htotal := totalCost_inPeriod hloaded hraw hp
    exact ⟨htotal, (totalCost_perm hbuckets _).trans htotal⟩
  · intro a ha
    obtain ⟨c, hc, hk⟩ := hrow a ha
    rw [← hk]
    exact exists_inPeriod hloaded hc

end

/-! ## A native name that is another row's canonical name -/

/-- What chargeback reports of a bucket. -/
def report (a : AggregatedCost) : CostKey × Option String × Rat × Rat × Nat :=
  (outputKey a, a.serviceCanonical, a.billedCost, a.amortizedCost, a.chargeCount)

/-- A service that the catalog does not know, billed under the canonical name of another. -/
def mixedNames : List FocusCharge :=
  [{ sampleRow web 3 with service := "managed_postgres" },
    { sampleRow (Dict.empty.set "team" "api") 97 with serviceCanonical := some "managed_postgres" }]

theorem mixedNames_loaded : ∀ c ∈ mixedNames, Loaded c ∧ c.accountId = "0" := by
  intro c hc
  simp only [mixedNames, List.mem_cons, List.not_mem_nil, or_false] at hc
  rcases hc with rfl | rfl
  · exact ⟨⟨⟨web, rfl, rfl⟩, by simp [sampleRow]⟩, rfl⟩
  · exact ⟨⟨⟨_, rfl, rfl⟩, by simp⟩, rfl⟩

/-- Two teams whose decimals have 29 digits together. -/
def largeTeams : List Loader.LoadedCharge :=
  [Loader.sampleRow web (.finite (10 ^ 28)),
    Loader.sampleRow (Dict.empty.set "team" "api") (.finite 5)]

/-- `web` has no canonical name on the rows, and `managed_postgres` on the aggregate. In decimals the
row of the period loses the five that the bucket of `api` has. -/
theorem canonical_differs : ((∀ c ∈ mixedNames, Loaded c ∧ c.accountId = "0") ∧
    ∃ aggs raw pre, aggregateForStorage mixedNames = .ok aggs ∧
      aggregateByTag mixedNames "team" = .ok raw ∧
      aggregateByTag (aggs.map (chargeOf "0" "")) "team" = .ok pre ∧
      ¬ List.Perm (pre.map report) (raw.map report)) ∧
    (Loader.aggregateByPeriod largeTeams).map (·.map (·.billedCost)) =
      .ok [.finite (10 ^ 28)] ∧
    (Loader.aggregateByTag (largeTeams.map (·.charge)) "team").map (·.map (·.billedCost)) =
      .ok [.finite (10 ^ 28), .finite 5] := by
  have hrun : ((aggregateForStorage mixedNames).toOption.bind fun aggs =>
      (aggregateByTag mixedNames "team").toOption.bind fun raw =>
        (aggregateByTag (aggs.map (chargeOf "0" "")) "team").toOption.map fun pre =>
          decide (List.Perm (pre.map report) (raw.map report))) = some false := by
    decide +kernel
  refine ⟨⟨mixedNames_loaded, ?_⟩, by decide +kernel, by decide +kernel⟩
  cases hagg : aggregateForStorage mixedNames with
  | error e => rw [hagg] at hrun; cases hrun
  | ok aggs =>
    cases hraw : aggregateByTag mixedNames "team" with
    | error e => rw [hagg, hraw] at hrun; cases hrun
    | ok raw =>
      cases hpre : aggregateByTag (aggs.map (chargeOf "0" "")) "team" with
      | error e =>
        simp only [hagg, hraw, Except.toOption, Option.bind_some, hpre, Option.map_none] at hrun
        cases hrun
      | ok pre =>
        simp only [hagg, hraw, Except.toOption, Option.bind_some, hpre, Option.map_some,
          Option.some.injEq] at hrun
        exact ⟨aggs, raw, pre, rfl, rfl, hpre, of_decide_eq_false hrun⟩

/-- Two rows under one name: the buckets agree. -/
theorem two_rows_transparent : ∃ aggs raw pre,
    aggregateForStorage [sampleRow web 3, sampleRow .empty 97] = .ok aggs ∧
      aggregateByTag [sampleRow web 3, sampleRow .empty 97] "team" = .ok raw ∧
      aggregateByTag (aggs.map (chargeOf "0" "")) "team" = .ok pre ∧
      SameBuckets [sampleRow web 3, sampleRow .empty 97] raw pre := by
  have hrows : ∀ c ∈ [sampleRow web 3, sampleRow .empty 97], Loaded c ∧ c.accountId = "0" := by
    intro c hc
    simp only [List.mem_cons, List.not_mem_nil, or_false] at hc
    rcases hc with rfl | rfl
    · exact ⟨⟨(sampleRow_ok web 3).1, by simp [sampleRow]⟩, rfl⟩
    · exact ⟨⟨(sampleRow_ok .empty 97).1, by simp [sampleRow]⟩, rfl⟩
  cases h : aggregateForStorage [sampleRow web 3, sampleRow .empty 97] with
  | error e =>
    have hmix := (aggregateForStorage_error fun c hc => (hrows c hc).1.row).1 ⟨e, h⟩
    simp [MixesCurrencies, sampleRow] at hmix
  | ok aggs =>
    obtain ⟨raw, pre, hraw, hpre, hsame⟩ :=
      (aggregateByTag_transparent hrows h "" "team").2 (by decide)
    exact ⟨aggs, raw, pre, rfl, hraw, hpre, hsame⟩

end Focus

end Constat
