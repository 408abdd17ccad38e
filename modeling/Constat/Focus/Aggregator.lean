import Mathlib.Algebra.BigOperators.Group.List.Basic
import Mathlib.Algebra.Ring.Rat
import Mathlib.Data.List.Dedup
import Mathlib.Data.List.Sort
import Constat.Lib.Loop
import Constat.Py.Calendar
import Constat.Py.Text

/-!
# Focus.Aggregator

`constat_focus/aggregator.py`: raw billing rows become one storage row per (service, period).

* `FocusCharge` — one charge. A row the loader yields has one tag dict and one (billed,
  amortized) pair (`LoaderRow`); a charge read back from storage has one of each per input row.
  The costs are rational numbers; `Focus.ExactCosts` says when the decimals of the program agree.
* `mode` — the most common non-empty value, the first one seen on a tie.
* `bucketRows` — the rows grouped by `serviceKey` (the canonical name, else the native one) and
  period; `aggregateForStorage` turns each group into an `AggregatedFocusCharge` and refuses a
  group that mixes currencies.
* `aggregateForStorage_mem` — what each aggregate holds: the sums, tags and costs of exactly the
  rows of its key.
-/

namespace Constat

structure FocusCharge where
  accountId : String
  accountName : String
  service : String
  region : Option String
  pricingCategory : Option String
  periodStart : Date
  periodEnd : Date
  billedCost : Rat
  amortizedCost : Rat
  resourceId : Option String
  subAccountId : Option String
  tags : List TagDict
  billingCurrency : String
  perRowCosts : List (Rat × Rat)
  serviceCanonical : Option String
deriving DecidableEq

namespace Focus

/-- One tag dict, possibly empty, and one pair of costs. -/
def LoaderRow (c : FocusCharge) : Prop :=
  ∃ d, c.tags = [d] ∧ c.perRowCosts = [(c.billedCost, c.amortizedCost)]

structure AggregatedFocusCharge where
  service : String
  periodStart : Date
  periodEnd : Date
  billedCost : Rat
  amortizedCost : Rat
  chargeCount : Nat
  region : Option String
  pricingCategory : Option String
  resourceId : Option String
  subAccountId : Option String
  tags : List TagDict
  perRowTagDicts : List TagDict
  perRowCosts : List (Rat × Rat)
  billingCurrency : String
  serviceCanonical : Option String
deriving DecidableEq

/-! ## Mode -/

/-- `v` when it is neither `None` nor empty. -/
def truthy (v : Option String) : Option String :=
  match v with
  | none => none
  | some s => if s = "" then none else some s

/-- `a or b` on an optional and a plain string. -/
def orStr (a : Option String) (b : String) : String := (truthy a).getD b

def counts (values : List (Option String)) : Dict String Nat :=
  (values.filterMap truthy).foldl (fun d v => d.update v fun n => n.getD 0 + 1) .empty

/-- The item with the largest count, the first one on a tie. -/
def maxItem : List (String × Nat) → Option String
  | [] => none
  | p :: ps =>
    some (ps.foldl (fun (best : String × Nat) q => if q.2 > best.2 then q else best) p).1

/-- The most common value, or `none` if all are None or empty. -/
def mode (values : List (Option String)) : Option String := maxItem (counts values).items

theorem foldl_best_mem (ps : List (String × Nat)) (p : String × Nat) :
    ps.foldl (fun (best : String × Nat) q => if q.2 > best.2 then q else best) p ∈ p :: ps := by
  induction ps generalizing p with
  | nil => exact List.mem_cons_self
  | cons q ps ih =>
    rw [List.foldl_cons]
    split
    · exact List.mem_cons_of_mem p (ih q)
    · rcases List.mem_cons.1 (ih p) with h | h
      · rw [h]; exact List.mem_cons_self
      · exact List.mem_cons_of_mem p (List.mem_cons_of_mem q h)

theorem mem_keys_counts {values : List (Option String)} {v : String} :
    v ∈ (counts values).keys ↔ v ∈ values.filterMap truthy := by
  rw [counts, Dict.mem_keys_foldl_update (fun v => v) (fun n _ => n.getD 0 + 1)]
  simp [Dict.keys, Dict.empty]

/-- The mode is one of the values, and not empty. -/
theorem mem_of_mode {values : List (Option String)} {v : String} (h : mode values = some v) :
    some v ∈ values ∧ v ≠ "" := by
  have hmem : v ∈ values.filterMap truthy := by
    rw [← mem_keys_counts]
    rw [mode] at h
    cases hi : (counts values).items with
    | nil => rw [hi] at h; cases h
    | cons p ps =>
      rw [hi] at h
      simp only [maxItem, Option.some.injEq] at h
      rw [Dict.keys, hi, List.mem_map]
      exact ⟨_, foldl_best_mem ps p, h⟩
  obtain ⟨o, ho, ht⟩ := List.mem_filterMap.1 hmem
  cases o with
  | none => cases ht
  | some s =>
    simp only [truthy] at ht
    split at ht
    · cases ht
    · rename_i hne
      cases ht
      exact ⟨ho, hne⟩

theorem mode_eq_none {values : List (Option String)} (h : mode values = none) :
    ∀ v ∈ values, truthy v = none := by
  intro o ho
  cases ht : truthy o with
  | none => rfl
  | some v =>
    exfalso
    have hkeys := mem_keys_counts.2 (List.mem_filterMap.2 ⟨o, ho, ht⟩)
    rw [mode] at h
    cases hi : (counts values).items with
    | nil => rw [Dict.keys, hi] at hkeys; cases hkeys
    | cons p ps => rw [hi] at h; cases h

/-! ## Grouping -/

/-- `service_canonical or service`. -/
def serviceKey (c : FocusCharge) : String := orStr c.serviceCanonical c.service

abbrev BucketKey := String × Date × Date

def bucketKey (c : FocusCharge) : BucketKey := (serviceKey c, c.periodStart, c.periodEnd)

def bucketRows (charges : List FocusCharge) : Dict BucketKey (List FocusCharge) :=
  charges.foldl (fun d c => d.update (bucketKey c) fun rows => rows.getD [] ++ [c]) .empty

/-- Two dicts with the same items in any order (equal `frozenset(d.items())`). -/
def sameItems (a b : TagDict) : Bool :=
  a.items.all (· ∈ b.items) && b.items.all (· ∈ a.items)

/-- Append a dict that is not there yet. -/
def addUnique (out : List TagDict) (d : TagDict) : List TagDict :=
  if out.any (sameItems d) then out else out ++ [d]

/-- The unique non-empty tag dicts, in first-seen order. -/
def uniqueDicts (values : List (List TagDict)) : List TagDict :=
  (values.flatten.filter fun d => !d.items.isEmpty).foldl addUnique []

def mixedCurrencies (key : BucketKey) (currencies : List String) : PyError where
  cls := "ValueError"
  msg := "FOCUS bucket (" ++ Py.reprStr key.1 ++ ", " ++ key.2.1.isoformat ++ ".." ++
    key.2.2.isoformat ++ ") mixes currencies " ++
    Py.str (.list ((currencies.insertionSort (· ≤ ·)).map .str)) ++
    ": V1 storage keys cost rows by (account, service, period) and cannot hold two currencies " ++
    "without summing them. Split the export per currency and ingest each under its own account id."

def aggregateBucket (key : BucketKey) (rows : List FocusCharge) :
    Except PyError AggregatedFocusCharge :=
  let currencies := (rows.map (·.billingCurrency)).dedup
  if currencies.length > 1 then .error (mixedCurrencies key currencies)
  else .ok {
    service := orStr (mode (rows.map fun r => some r.service)) key.1
    serviceCanonical := mode (rows.map (·.serviceCanonical))
    periodStart := key.2.1
    periodEnd := key.2.2
    billedCost := (rows.map (·.billedCost)).sum
    amortizedCost := (rows.map (·.amortizedCost)).sum
    chargeCount := rows.length
    region := mode (rows.map (·.region))
    pricingCategory := mode (rows.map (·.pricingCategory))
    resourceId := mode (rows.map (·.resourceId))
    subAccountId := mode (rows.map (·.subAccountId))
    tags := uniqueDicts (rows.map (·.tags))
    perRowTagDicts := rows.flatMap (·.tags)
    perRowCosts := rows.flatMap (·.perRowCosts)
    billingCurrency := currencies.headD "USD" }

/-- `zip(c.tags, c.per_row_costs, strict=True)` raises on lists of different lengths. -/
def unparallel (c : FocusCharge) : Bool := c.tags.length ≠ c.perRowCosts.length

def zipMismatch (c : FocusCharge) : PyError where
  cls := "ValueError"
  msg := "zip() argument 2 is " ++
    (if c.perRowCosts.length < c.tags.length then "shorter" else "longer") ++ " than argument 1"

def aggregateGroup (p : BucketKey × List FocusCharge) : Except PyError AggregatedFocusCharge :=
  match p.2.find? unparallel with
  | some r => .error (zipMismatch r)
  | none => aggregateBucket p.1 p.2

/-- Group charges by service and period and sum their costs. -/
def aggregateForStorage (charges : List FocusCharge) : Except PyError (List AggregatedFocusCharge) :=
  (bucketRows charges).items.mapM aggregateGroup

/-! ## What the aggregates hold -/

/-- The charges of one bucket, in their order. -/
def group (charges : List FocusCharge) (key : BucketKey) : List FocusCharge :=
  charges.filter fun c => bucketKey c = key

theorem mem_group {charges : List FocusCharge} {key : BucketKey} {c : FocusCharge} :
    c ∈ group charges key ↔ c ∈ charges ∧ bucketKey c = key := by
  simp [group]

theorem mem_keys_bucketRows {charges : List FocusCharge} {key : BucketKey} :
    key ∈ (bucketRows charges).keys ↔ ∃ c ∈ charges, bucketKey c = key := by
  rw [bucketRows, Dict.mem_keys_foldl_update bucketKey fun rows c => rows.getD [] ++ [c]]
  simp [Dict.keys, Dict.empty]

theorem rows_of_mem_items {charges : List FocusCharge} {p : BucketKey × List FocusCharge}
    (h : p ∈ (bucketRows charges).items) :
    p.2 = group charges p.1 ∧ p.2 ≠ [] := Dict.mem_items_group.1 h

theorem truthy_eq_some {o : Option String} {v : String} (h : truthy o = some v) :
    o = some v ∧ v ≠ "" := by
  cases o with
  | none => cases h
  | some s =>
    simp only [truthy] at h
    split at h
    · cases h
    · rename_i hne
      cases h
      exact ⟨rfl, hne⟩

theorem truthy_of_ne {v : String} (h : v ≠ "") : truthy (some v) = some v := if_neg h

/-- Rows that share a service key have it as the name of their mode: the canonical one, which is not
empty, or the native one. -/
theorem getD_mode {α : Type} {rows : List α} {service : α → String}
    {canonical : α → Option String} {key : String}
    (hkey : ∀ r ∈ rows, orStr (canonical r) (service r) = key) :
    (mode (rows.map canonical)).getD (orStr (mode (rows.map fun r => some (service r))) key) = key ∧
      mode (rows.map canonical) ≠ some "" := by
  cases hm : mode (rows.map canonical) with
  | some v =>
    obtain ⟨hv, hvne⟩ := mem_of_mode hm
    obtain ⟨r, hr, hrv⟩ := List.mem_map.1 hv
    refine ⟨?_, fun he => hvne (Option.some.inj he)⟩
    rw [Option.getD_some, ← hkey r hr, orStr, hrv, truthy_of_ne hvne, Option.getD_some]
  | none =>
    refine ⟨?_, fun he => by cases he⟩
    rw [Option.getD_none]
    -- no row has a canonical name, so every native name is the key itself
    have hservice : ∀ r ∈ rows, service r = key := by
      intro r hr
      have hk := hkey r hr
      have ht := mode_eq_none hm _ (List.mem_map.2 ⟨r, hr, rfl⟩)
      rw [orStr, ht, Option.getD_none] at hk
      exact hk
    cases hs : mode (rows.map fun r => some (service r)) with
    | none => rfl
    | some v =>
      obtain ⟨hv, hvne⟩ := mem_of_mode hs
      obtain ⟨r, hr, hrv⟩ := List.mem_map.1 hv
      rw [orStr, truthy_of_ne hvne, Option.getD_some, ← Option.some.inj hrv]
      exact hservice r hr

/-- The dedup key of an aggregate is the key of its group, and its canonical name is not empty. -/
theorem aggregateBucket_key {key : BucketKey} {rows : List FocusCharge}
    {agg : AggregatedFocusCharge} (hkey : ∀ r ∈ rows, bucketKey r = key)
    (h : aggregateBucket key rows = .ok agg) :
    agg.serviceCanonical.getD agg.service = key.1 ∧ agg.serviceCanonical ≠ some "" := by
  have hmode := getD_mode fun r hr => congrArg Prod.fst (hkey r hr)
  simp only [aggregateBucket] at h
  split at h
  · cases h
  · cases h
    exact hmode

/-- The dedup key of an aggregate. -/
def AggregatedFocusCharge.key (agg : AggregatedFocusCharge) : BucketKey :=
  (agg.serviceCanonical.getD agg.service, agg.periodStart, agg.periodEnd)

/-- An aggregate holds the rows of its key. -/
structure AggregateOf (charges : List FocusCharge) (agg : AggregatedFocusCharge) : Prop where
  canonical : agg.serviceCanonical ≠ some ""
  billedCost : agg.billedCost = ((group charges agg.key).map (·.billedCost)).sum
  amortizedCost : agg.amortizedCost = ((group charges agg.key).map (·.amortizedCost)).sum
  perRowTagDicts : agg.perRowTagDicts = (group charges agg.key).flatMap (·.tags)
  perRowCosts : agg.perRowCosts = (group charges agg.key).flatMap (·.perRowCosts)
  currency : ∀ r ∈ group charges agg.key, r.billingCurrency = agg.billingCurrency

theorem eq_headD_of_dedup {l : List String} (hlen : ¬ l.dedup.length > 1) {c : String}
    (hc : c ∈ l) : c = l.dedup.headD "USD" := by
  have hmem : c ∈ l.dedup := List.mem_dedup.2 hc
  cases hd : l.dedup with
  | nil => rw [hd] at hmem; cases hmem
  | cons x xs =>
    cases xs with
    | nil => rw [hd] at hmem; exact List.mem_singleton.1 hmem
    | cons y ys => rw [hd, List.length_cons, List.length_cons] at hlen; omega

theorem currency_of_aggregateBucket {key : BucketKey} {rows : List FocusCharge}
    {agg : AggregatedFocusCharge} (h : aggregateBucket key rows = .ok agg) :
    ∀ r ∈ rows, r.billingCurrency = agg.billingCurrency := by
  intro r hr
  simp only [aggregateBucket] at h
  split at h
  · cases h
  · rename_i hlen
    cases h
    exact eq_headD_of_dedup hlen (List.mem_map.2 ⟨r, hr, rfl⟩)

theorem aggregateForStorage_mem {charges : List FocusCharge} {aggs : List AggregatedFocusCharge}
    (h : aggregateForStorage charges = .ok aggs) :
    (aggs.map (·.key) = (bucketRows charges).keys) ∧ ∀ agg ∈ aggs, AggregateOf charges agg := by
  have hall : ∀ p ∈ (bucketRows charges).items, ∀ agg, aggregateGroup p = .ok agg →
      agg.key = p.1 ∧ AggregateOf charges agg := by
    intro p hp agg hagg
    rw [aggregateGroup] at hagg
    split at hagg
    · cases hagg
    · obtain ⟨hrows, _⟩ := rows_of_mem_items hp
      have hkeys : ∀ r ∈ p.2, bucketKey r = p.1 := by
        intro r hr
        rw [hrows] at hr
        exact of_decide_eq_true (List.mem_filter.1 hr).2
      obtain ⟨hkey, hcan⟩ := aggregateBucket_key hkeys hagg
      have hcur := currency_of_aggregateBucket hagg
      simp only [aggregateBucket] at hagg
      split at hagg
      · cases hagg
      · cases hagg
        have hfull : AggregatedFocusCharge.key _ = p.1 := Prod.ext hkey rfl
        refine ⟨hfull, hcan, ?_, ?_, ?_, ?_, ?_⟩ <;> rw [hfull, ← hrows]
        exact hcur
  have hf := Loop.mapM_ok h
  constructor
  · rw [Dict.keys]
    have : ∀ {l : List (BucketKey × List FocusCharge)} {as : List AggregatedFocusCharge},
        (∀ p ∈ l, p ∈ (bucketRows charges).items) →
        List.Forall₂ (fun p agg => aggregateGroup p = .ok agg) l as →
        as.map (·.key) = l.map Prod.fst := by
      intro l as hl hf
      induction hf with
      | nil => rfl
      | cons hx _ ih =>
        rw [List.forall_mem_cons] at hl
        rw [List.map_cons, List.map_cons, ih hl.2, (hall _ hl.1 _ hx).1]
    exact this (fun _ hp => hp) hf
  · intro agg hagg
    obtain ⟨p, hp, hx⟩ := Loop.mem_of_mapM h hagg
    exact (hall p hp agg hx).2

/-- What an aggregate takes from its rows beside the sums. -/
structure FromRows (key : BucketKey) (rows : List FocusCharge) (agg : AggregatedFocusCharge) :
    Prop where
  service : agg.service = orStr (mode (rows.map fun r => some r.service)) key.1
  canonical : agg.serviceCanonical = mode (rows.map (·.serviceCanonical))
  periodStart : agg.periodStart = key.2.1
  periodEnd : agg.periodEnd = key.2.2
  resourceId : agg.resourceId = mode (rows.map (·.resourceId))

theorem aggregateBucket_fields {key : BucketKey} {rows : List FocusCharge}
    {agg : AggregatedFocusCharge} (h : aggregateBucket key rows = .ok agg) :
    FromRows key rows agg := by
  simp only [aggregateBucket] at h
  split at h
  · cases h
  · cases h; exact ⟨rfl, rfl, rfl, rfl, rfl⟩

/-- Each aggregate is that of the rows of its key. -/
theorem aggregateBucket_of_mem {charges : List FocusCharge} {aggs : List AggregatedFocusCharge}
    (h : aggregateForStorage charges = .ok aggs) {agg : AggregatedFocusCharge} (hagg : agg ∈ aggs) :
    group charges agg.key ≠ [] ∧ aggregateBucket agg.key (group charges agg.key) = .ok agg := by
  obtain ⟨p, hp, hx⟩ := Loop.mem_of_mapM h hagg
  obtain ⟨hrows, hne⟩ := rows_of_mem_items hp
  rw [aggregateGroup] at hx
  split at hx
  · cases hx
  · have hkeys : ∀ r ∈ p.2, bucketKey r = p.1 := by
      intro r hr
      rw [hrows] at hr
      exact of_decide_eq_true (List.mem_filter.1 hr).2
    have hfields := aggregateBucket_fields hx
    have hkey : agg.key = p.1 :=
      Prod.ext (aggregateBucket_key hkeys hx).1 (Prod.ext hfields.periodStart hfields.periodEnd)
    rw [hkey, ← hrows]
    exact ⟨hne, hx⟩

end Focus

end Constat
