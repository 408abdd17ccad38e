import Constat.Focus.StoragePartition
import Constat.Focus.Transparency

/-!
# Focus.ExactCosts

The aggregators are modelled twice: over rational costs, and over the decimals of the program. Where
the decimals of every bucket are finite and together fit in 28 digits, the two models agree: a result
over the decimals, read as numbers, is the result over the numbers.

* `aggregateForStorage_exact`, `aggregateByPeriod_exact` — over the rows of the loader.
* `aggregateByTag_exact`                                 — over any charges whose rows have costs.
-/

namespace Constat

namespace Focus

/-! ## Decimals as numbers -/

def DecimalCharge.exact (c : DecimalCharge) : FocusCharge where
  accountId := c.accountId
  accountName := c.accountName
  service := c.service
  region := c.region
  pricingCategory := c.pricingCategory
  periodStart := c.periodStart
  periodEnd := c.periodEnd
  billedCost := c.billedCost.value
  amortizedCost := c.amortizedCost.value
  resourceId := c.resourceId
  subAccountId := c.subAccountId
  tags := c.tags
  billingCurrency := c.billingCurrency
  perRowCosts := c.perRowCosts.map fun p => (p.1.value, p.2.value)
  serviceCanonical := c.serviceCanonical

namespace Loader

def LoadedCharge.exact (c : LoadedCharge) : FocusCharge := c.charge.exact

def LoadedAggregate.exact (a : LoadedAggregate) : AggregatedFocusCharge where
  service := a.service
  periodStart := a.periodStart
  periodEnd := a.periodEnd
  billedCost := a.billedCost.value
  amortizedCost := a.amortizedCost.value
  chargeCount := a.chargeCount
  region := a.region
  pricingCategory := a.pricingCategory
  resourceId := a.resourceId
  subAccountId := a.subAccountId
  tags := a.tags
  perRowTagDicts := a.perRowTagDicts
  perRowCosts := a.perRowCosts.map fun p => (p.1.value, p.2.value)
  billingCurrency := a.billingCurrency
  serviceCanonical := a.serviceCanonical

def LoadedCost.exact (a : LoadedCost) : AggregatedCost where
  accountId := a.accountId
  service := a.service
  billedCost := a.billedCost.value
  amortizedCost := a.amortizedCost.value
  chargeCount := a.chargeCount
  periodStart := a.periodStart
  periodEnd := a.periodEnd
  tags := a.tags
  tagKey := a.tagKey
  tagValue := a.tagValue
  accountName := a.accountName
  billingCurrency := a.billingCurrency
  serviceCanonical := a.serviceCanonical

/-! ## Rows of the loader -/

section

variable {rows : List LoadedCharge}

/-- The rows fall into the same groups. -/
theorem mapValues_groupRows {κ : Type} [DecidableEq κ] (key : LoadedCharge → κ)
    (rows : List LoadedCharge) :
    (groupRows key rows).mapValues (List.map LoadedCharge.exact) =
      rows.foldl (fun d c => d.update (key c) fun o => o.getD [] ++ [c.exact]) .empty := by
  rw [groupRows, Dict.mapValues_foldl_update key
    (fun o (c : LoadedCharge) => o.getD [] ++ [c.exact]) fun o c => by cases o <;> simp]
  rfl

theorem items_bucketRows (rows : List LoadedCharge) :
    (bucketRows (rows.map LoadedCharge.exact)).items =
      (groupRows bucketKey rows).items.map (Prod.map id (List.map LoadedCharge.exact)) := by
  rw [bucketRows, List.foldl_map]
  exact (congrArg Dict.items (mapValues_groupRows bucketKey rows)).symm

theorem items_periodRows (rows : List LoadedCharge) :
    (periodRows (rows.map LoadedCharge.exact)).items =
      (groupRows periodKey rows).items.map (Prod.map id (List.map LoadedCharge.exact)) := by
  rw [periodRows, List.foldl_map]
  exact (congrArg Dict.items (mapValues_groupRows periodKey rows)).symm

/-- What the rows of a group show as numbers. -/
theorem flatMap_exact (l : List LoadedCharge) :
    (l.map LoadedCharge.exact).flatMap (·.tags) = l.map (·.tags) ∧
      (l.map LoadedCharge.exact).flatMap (·.perRowCosts) =
        l.map fun c => (c.billedCost.value, c.amortizedCost.value) := by
  constructor
  · rw [List.flatMap_map, List.map_eq_flatMap]
    rfl
  · rw [List.flatMap_map, List.map_eq_flatMap]
    rfl

theorem aggregateGroup_exact {p : BucketKey × List LoadedCharge}
    (h : Totals p.2 (.finite (billedValues p.2).sum) (.finite (amortizedValues p.2).sum)) :
    (aggregateBucket p).map LoadedAggregate.exact =
      aggregateGroup (Prod.map id (List.map LoadedCharge.exact) p) := by
  obtain ⟨key, l⟩ := p
  have hnone : (l.map LoadedCharge.exact).find? unparallel = none := by
    rw [List.find?_eq_none]
    intro c hc
    obtain ⟨r, _, rfl⟩ := List.mem_map.1 hc
    simp [unparallel, LoadedCharge.exact, DecimalCharge.exact, LoadedCharge.charge]
  have hcurrencies : (l.map LoadedCharge.exact).map (·.billingCurrency) =
      l.map (·.billingCurrency) := by
    rw [List.map_map]
    rfl
  simp only [aggregateGroup, Prod.map, id_eq, hnone]
  unfold aggregateBucket Focus.aggregateBucket
  simp only [hcurrencies]
  by_cases hmix : (l.map (·.billingCurrency)).dedup.length > 1
  · rw [if_pos hmix, if_pos hmix]
    rfl
  · rw [if_neg hmix, if_neg hmix, h.billed, h.amortized, (flatMap_exact l).1, (flatMap_exact l).2,
      List.length_map]
    simp only [List.map_map]
    simp only [trap, Except.mapError, bind, Except.bind, pure, Except.pure, Except.map,
      LoadedAggregate.exact, List.map_map]
    rfl

theorem ExactCosts.totals_of_mem {κ : Type} [DecidableEq κ] {key : LoadedCharge → κ}
    (h : ExactCosts key rows) {p : κ × List LoadedCharge} (hp : p ∈ (groupRows key rows).items) :
    Totals p.2 (.finite (billedValues p.2).sum) (.finite (amortizedValues p.2).sum) := by
  have hrows := (mem_groupRows.1 hp).1
  have htotals := h.totals p.1
  rwa [← hrows] at htotals

theorem aggregateForStorage_exact (h : ExactCosts bucketKey rows) :
    (aggregateForStorage rows).map (List.map LoadedAggregate.exact) =
      Focus.aggregateForStorage (rows.map LoadedCharge.exact) := by
  rw [aggregateForStorage, Focus.aggregateForStorage, items_bucketRows]
  exact Loop.map_mapM fun p hp => aggregateGroup_exact (h.totals_of_mem hp)

theorem periodCost_exact {p : PeriodKey × List LoadedCharge}
    (h : Totals p.2 (.finite (billedValues p.2).sum) (.finite (amortizedValues p.2).sum)) :
    (periodCost p).map LoadedCost.exact =
      .ok (Focus.periodCost (Prod.map id (List.map LoadedCharge.exact) p)) := by
  obtain ⟨key, l⟩ := p
  unfold periodCost sumRows Focus.periodCost mergeTagLists firstAccountName
  simp only [Prod.map, id_eq]
  rw [h.billed, h.amortized, (flatMap_exact l).1, List.length_map]
  simp only [List.map_map, List.findSome?_map, List.find?_map, Option.map_map]
  simp only [trap, Except.mapError, bind, Except.bind, pure, Except.pure, Except.map,
    LoadedCost.exact]
  rfl

theorem aggregateByPeriod_exact (h : ExactCosts periodKey rows) :
    (aggregateByPeriod rows).map (List.map LoadedCost.exact) =
      .ok (Focus.aggregateByPeriod (rows.map LoadedCharge.exact)) := by
  have hmap : ∀ l : List (PeriodKey × List FocusCharge),
      (l.mapM fun p => .ok (Focus.periodCost p) : Except PyError (List AggregatedCost)) =
        .ok (l.map Focus.periodCost) := fun l => List.mapM_pure
  rw [aggregateByPeriod, Focus.aggregateByPeriod, items_periodRows, ← hmap]
  exact Loop.map_mapM fun p hp => periodCost_exact (h.totals_of_mem hp)

end

/-! ## By tag -/

/-- What a posting that is not shared adds. -/
def Posting.exact (p : Posting) : Contribution :=
  ⟨p.key, p.billedAmount, p.amortizedAmount, p.tags⟩

/-- No posting of the charges is a share: their rows have costs, or are not counted. -/
def Unshared (tagKey : String) (charges : List DecimalCharge) : Prop :=
  ∀ c ∈ charges, ∀ p ∈ c.postings tagKey, p.share = none

section

variable {tagKey : String} {charges : List DecimalCharge}

theorem Unshared.sublist {charges' : List DecimalCharge} (h : Unshared tagKey charges)
    (hsub : charges'.Sublist charges) : Unshared tagKey charges' :=
  fun c hc => h c (hsub.subset hc)

theorem contributions_exact {c : DecimalCharge} (h : ∀ p ∈ c.postings tagKey, p.share = none) :
    contributions tagKey c.exact = (c.postings tagKey).map Posting.exact := by
  have hcosts : c.exact.perRowCosts ≠ [] ↔ c.perRowCosts ≠ [] := by simp [DecimalCharge.exact]
  unfold contributions DecimalCharge.postings
  unfold DecimalCharge.postings at h
  by_cases hc : c.perRowCosts ≠ []
  · rw [if_pos (hcosts.2 hc), if_pos hc]
    have hzip : c.exact.tags.zip c.exact.perRowCosts =
        (c.tags.zip c.perRowCosts).map
          (Prod.map id fun p : Decimal × Decimal => (p.1.value, p.2.value)) := List.zip_map_right
    rw [costRows, hzip, DecimalCharge.costRows, List.map_map, List.map_map]
    rfl
  · rw [if_neg (mt hcosts.1 hc), if_neg hc]
    rw [if_neg hc] at h
    by_cases htags : c.tags ≠ []
    · have htags' : c.exact.tags ≠ [] := htags
      rw [if_pos htags', if_pos htags]
      rw [if_pos htags] at h
      have hcounts : perValueCount tagKey c.exact = c.perValueCount tagKey := rfl
      unfold attributeRowCount DecimalCharge.attributeRowCount
      unfold DecimalCharge.attributeRowCount at h
      simp only [hcounts] at h ⊢
      cases hitems : (c.perValueCount tagKey).items with
      | nil => rfl
      | cons q qs =>
        -- a counted value has a share
        rw [hitems] at h
        simp only [List.isEmpty_cons, Bool.false_eq_true, if_false] at h
        exact absurd (h _ (List.mem_map_of_mem List.mem_cons_self)) (by simp)
    · have htags' : ¬ c.exact.tags ≠ [] := htags
      rw [if_neg htags', if_neg htags]
      rfl

theorem flatMap_contributions_exact (h : Unshared tagKey charges) :
    (charges.map DecimalCharge.exact).flatMap (contributions tagKey) =
      (charges.flatMap (·.postings tagKey)).map Posting.exact := by
  rw [List.flatMap_map, List.map_flatMap]
  exact List.flatMap_congr fun c hc => contributions_exact (h c hc)

/-! ## The same run -/

theorem tags_addContributions (xs : List Contribution) (b : TagBuckets) :
    (xs.foldl addContribution b).tags =
      xs.foldl (fun d x => d.update x.key fun o => o.getD [] ++ [x.tags]) b.tags := by
  induction xs generalizing b with
  | nil => rfl
  | cons x xs ih => exact ih (addContribution b x)

theorem accountNames_addContributions (xs : List Contribution) (b : TagBuckets) :
    (xs.foldl addContribution b).accountNames = b.accountNames := by
  induction xs generalizing b with
  | nil => rfl
  | cons x xs ih => exact ih (addContribution b x)

theorem rememberName_exact {b : TagBuckets} (c : DecimalCharge) :
    (Focus.rememberName b c.exact).accountNames = rememberName b.accountNames c ∧
      (Focus.rememberName b c.exact).tags = b.tags := by
  unfold Focus.rememberName rememberName
  have hname : c.exact.accountName = c.accountName := rfl
  have hid : c.exact.accountId = c.accountId := rfl
  rw [hname, hid]
  split
  · exact ⟨rfl, rfl⟩
  · exact ⟨rfl, rfl⟩

/-- The two models keep the same beside the sums. -/
structure Mirrors (b : LoadedBuckets) (b' : TagBuckets) : Prop where
  keys : b.sums.keys = b'.sums.keys
  tags : b.tags = b'.tags
  canonical : b.canonical = b'.canonical
  accountNames : b.accountNames = b'.accountNames

theorem mirrors_empty : Mirrors .empty .empty := ⟨rfl, rfl, rfl, rfl⟩

theorem keys_addCharge {b b₁ : LoadedBuckets} {b' : TagBuckets} {c : DecimalCharge}
    (hshare : ∀ p ∈ c.postings tagKey, p.share = none) (hkeys : b.sums.keys = b'.sums.keys)
    (h : addCharge tagKey b c = .ok b₁) :
    b₁.sums.keys = (Focus.addCharge tagKey b' c.exact).sums.keys := by
  obtain ⟨sums, hsums, _, rfl⟩ := addCharge_ok.1 h
  have hunit : b.sums.mapValues (fun _ => ()) = b'.sums.mapValues fun _ => () := by
    refine Dict.ext_get? (by simpa using hkeys) fun k => ?_
    rw [Dict.get?_mapValues, Dict.get?_mapValues]
    have hnone : b.sums.get? k = none ↔ b'.sums.get? k = none := by
      rw [Dict.get?_eq_none, Dict.get?_eq_none, hkeys]
    cases hk : b.sums.get? k with
    | none => rw [hnone.1 hk]; rfl
    | some v =>
      cases hk' : b'.sums.get? k with
      | none => rw [hnone.2 hk'] at hk; cases hk
      | some v' => rfl
  have hloop := Dict.mapValues_loopM (fun _ => ()) (fun _ => ())
    (fun o p => addSums o (Posting.exact p)) (fun _ _ _ _ _ _ _ => rfl) hunit hsums
  have hfold := congrArg Dict.keys hloop
  rw [Dict.keys_mapValues, Dict.keys_mapValues] at hfold
  rw [sums_addCharge, contributions_exact hshare, List.foldl_map]
  exact hfold

/-- The buckets of a charge before its name is recorded, and the names after. -/
theorem addCharge_parts (tagKey : String) (b : TagBuckets) (c : FocusCharge) {b₁ : TagBuckets}
    (h : b₁ = (contributions tagKey c).foldl addContribution (Focus.rememberName b c)) :
    (Focus.addCharge tagKey b c).sums = b₁.sums ∧ (Focus.addCharge tagKey b c).tags = b₁.tags ∧
      (Focus.addCharge tagKey b c).accountNames = b₁.accountNames ∧
      (Focus.addCharge tagKey b c).canonical = c.serviceCanonical.elim b.canonical fun n =>
        (Focus.canonicalKeys tagKey c b₁).foldl (fun d k => d.set k n) b.canonical := by
  have hcanon : b₁.canonical = b.canonical := by
    rw [h, canonical_addContributions, canonical_rememberName]
  unfold Focus.addCharge
  simp only [← h]
  cases c.serviceCanonical with
  | none => exact ⟨rfl, rfl, rfl, hcanon⟩
  | some n => exact ⟨rfl, rfl, rfl, by rw [hcanon]; rfl⟩

theorem canonicalKeys_exact {c : DecimalCharge} {b : TagBuckets} {keys : List CostKey}
    (hshare : ∀ p ∈ c.postings tagKey, p.share = none) (hkeys : b.sums.keys = keys) :
    Focus.canonicalKeys tagKey c.exact b = canonicalKeys tagKey c keys := by
  have hcosts : c.exact.perRowCosts = [] ↔ c.perRowCosts = [] := by simp [DecimalCharge.exact]
  have htags : c.exact.tags = c.tags := rfl
  unfold Focus.canonicalKeys canonicalKeys
  rw [hkeys, contributions_exact hshare, List.map_map]
  simp only [hcosts, htags]
  rfl

theorem Mirrors.addCharge {b b₁ : LoadedBuckets} {b' : TagBuckets} {c : DecimalCharge}
    (hshare : ∀ p ∈ c.postings tagKey, p.share = none) (hb : Mirrors b b')
    (h : Loader.addCharge tagKey b c = .ok b₁) :
    Mirrors b₁ (Focus.addCharge tagKey b' c.exact) := by
  have hkeys := keys_addCharge hshare hb.keys h
  obtain ⟨hnames, htags⟩ := rememberName_exact (b := b') c
  obtain ⟨hsums', htags', hnames', hcanon'⟩ := addCharge_parts tagKey b' c.exact rfl
  obtain ⟨sums, _, _, rfl⟩ := addCharge_ok.1 h
  refine ⟨hkeys, ?_, ?_, ?_⟩
  · rw [htags', tags_addContributions, htags, ← hb.tags, contributions_exact hshare,
      List.foldl_map]
    rfl
  · have hname : c.exact.serviceCanonical = c.serviceCanonical := rfl
    rw [hcanon', hname, canonicalKeys_exact hshare (hsums' ▸ hkeys.symm), hb.canonical]
  · rw [hnames', accountNames_addContributions, hnames, hb.accountNames]

theorem mirrors_run (hshare : Unshared tagKey charges) :
    ∀ {b b₁ : LoadedBuckets} {b' : TagBuckets}, Mirrors b b' →
      charges.foldlM (addCharge tagKey) b = .ok b₁ →
        Mirrors b₁ ((charges.map DecimalCharge.exact).foldl (Focus.addCharge tagKey) b') := by
  induction charges with
  | nil => intro b b₁ b' hb h; cases h; exact hb
  | cons c charges ih =>
    intro b b₁ b' hb h
    obtain ⟨b₂, hstep, hrest⟩ := Loop.foldlM_cons_ok.1 h
    rw [List.map_cons, List.foldl_cons]
    exact ih (hshare.sublist (List.sublist_cons_self c charges))
      (hb.addCharge (hshare c List.mem_cons_self) hstep) hrest

/-- With exact sums the two models have the same totals. -/
theorem sums_run (hshare : Unshared tagKey charges) (hexact : ExactSums tagKey charges)
    {b : LoadedBuckets} (h : charges.foldlM (addCharge tagKey) .empty = .ok b) :
    b.sums.mapValues (fun v => (v.1.value, v.2.1.value, v.2.2)) =
      ((charges.map DecimalCharge.exact).foldl (Focus.addCharge tagKey) .empty).sums := by
  have hmirrors := mirrors_run hshare mirrors_empty h
  refine Dict.ext_get? (by rw [Dict.keys_mapValues]; exact hmirrors.keys) fun k => ?_
  rw [Dict.get?_mapValues, hexact.get?_sums h, sums_foldl_addCharge,
    flatMap_contributions_exact hshare]
  have hentries : (((charges.flatMap (·.postings tagKey)).map Posting.exact).filter
      fun x => x.key = k) = (entries tagKey charges k).map Posting.exact := by
    rw [List.filter_map]
    rfl
  have hget := get?_sumsOf ((charges.flatMap (·.postings tagKey)).map Posting.exact) k
  simp only [bucketTotal, hentries, List.map_eq_nil_iff, List.map_map, List.length_map] at hget
  refine Eq.trans ?_ hget.symm
  split
  · rfl
  · rfl

theorem find?_uneven (charges : List DecimalCharge) :
    (charges.map DecimalCharge.exact).find? (fun c => c.perRowCosts ≠ [] ∧ unparallel c) =
      (charges.find? fun c => decide c.Uneven).map DecimalCharge.exact := by
  rw [List.find?_map]
  refine congrArg _ (congrArg (fun p => charges.find? p) (funext fun c => ?_))
  rw [Function.comp_apply, decide_eq_decide]
  simp [DecimalCharge.exact, DecimalCharge.Uneven, unparallel]

theorem zipMismatch_exact (c : DecimalCharge) : zipMismatch c.exact = c.zipMismatch := by
  simp only [zipMismatch, DecimalCharge.zipMismatch, DecimalCharge.exact, List.length_map]

theorem aggregateByTag_exact (hshare : Unshared tagKey charges) (hexact : ExactSums tagKey charges) :
    (aggregateByTag charges tagKey).map (List.map LoadedCost.exact) =
      Focus.aggregateByTag (charges.map DecimalCharge.exact) tagKey := by
  unfold Focus.aggregateByTag
  by_cases htag : tagKey = ""
  · rw [if_pos htag]
    unfold aggregateByTag
    rw [if_pos htag]
    rfl
  rw [if_neg htag, find?_uneven]
  cases hfind : charges.find? fun c => decide c.Uneven with
  | some c =>
    simp only [Option.map_some, zipMismatch_exact]
    unfold aggregateByTag
    rw [if_neg htag, hexact.uneven_raises hfind]
    rfl
  | none =>
    have heven : ∀ c ∈ charges, ¬ c.Uneven := fun c hc => by
      simpa using List.find?_eq_none.1 hfind c hc
    obtain ⟨b, hb⟩ := hexact.exists_run heven
    have hmirrors := mirrors_run hshare mirrors_empty hb
    have hitems := congrArg Dict.items (sums_run hshare hexact hb)
    simp only [Option.map_none, aggregateByTag_ok_iff.2 ⟨htag, b, hb, rfl⟩]
    rw [← hitems]
    simp only [Except.map, Dict.mapValues, List.map_map, Except.ok.injEq]
    refine List.map_congr_left fun p _ => ?_
    simp only [Function.comp_apply, LoadedCost.exact, tagCost, bucketCost, Prod.map, id_eq,
      hmirrors.tags, hmirrors.canonical, hmirrors.accountNames]

/-- The rows of the loader, each with its cost. -/
theorem exactSums_of_rows {rows : List LoadedCharge} (h : ExactCosts (tagBucket tagKey) rows) :
    ExactSums tagKey (rows.map LoadedCharge.charge) ∧
      Unshared tagKey (rows.map LoadedCharge.charge) := by
  have hentries : ∀ k, entries tagKey (rows.map LoadedCharge.charge) k =
      (bucket (tagBucket tagKey) rows k).map (rowPosting tagKey) := by
    intro k
    rw [entries, flatMap_postings, filter_rowPosting]
  refine ⟨⟨?_, ?_, ?_⟩, ?_⟩
  · intro p hp
    rw [flatMap_postings] at hp
    obtain ⟨c, hc, rfl⟩ := List.mem_map.1 hp
    obtain ⟨hbilled, hamortized⟩ := h.finite c hc
    exact ⟨congrArg Except.ok (Decimal.finite_value hbilled).symm,
      congrArg Except.ok (Decimal.finite_value hamortized).symm⟩
  · intro k
    obtain ⟨d, hd⟩ := h.billed k
    rw [hentries, List.map_map]
    exact ⟨d, hd⟩
  · intro k
    obtain ⟨d, hd⟩ := h.amortized k
    rw [hentries, List.map_map]
    exact ⟨d, hd⟩
  · intro c hc p hp
    obtain ⟨r, _, rfl⟩ := List.mem_map.1 hc
    rw [postings_charge, List.mem_singleton] at hp
    rw [hp]
    rfl

end

end Loader

end Focus

end Constat
