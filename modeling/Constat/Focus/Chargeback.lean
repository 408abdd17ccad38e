import Mathlib.Algebra.Group.Prod
import Constat.Focus.Aggregator

/-!
# Focus.Chargeback

`constat_chargeback/resolver.py`, `aggregate_by_tag`: charges are re-aggregated by (account,
service, period, currency, tag value). Every charge adds some `Contribution`s, one per input row
when its per-row costs are known; a row without the tag goes to `untagged`.

`totalCost_aggregateByTag` is all later proofs need: over any set of keys, the output adds up to
the contributions with those keys.
-/

namespace Constat

namespace Focus

def untagged : String := "__untagged__"

structure CostKey where
  accountId : String
  service : String
  periodStart : Date
  periodEnd : Date
  billingCurrency : String
  tagValue : String
deriving DecidableEq

structure AggregatedCost where
  accountId : String
  service : String
  billedCost : Rat
  amortizedCost : Rat
  chargeCount : Nat
  periodStart : Option Date
  periodEnd : Option Date
  tags : List TagDict
  tagKey : Option String
  tagValue : Option String
  accountName : String
  billingCurrency : String
  serviceCanonical : Option String
deriving DecidableEq

/-- What one input row, or one charge, adds to one bucket. -/
structure Contribution where
  key : CostKey
  billed : Rat
  amortized : Rat
  tags : TagDict

/-- The value of `tagKey` in a tag dict; a missing or empty value is `untagged`. -/
def valueOf (tagKey : String) (d : TagDict) : String :=
  match d.get? tagKey with
  | none => untagged
  | some v => if v = "" then untagged else v

/-- The dict kept for the insight payload: the tag itself, or nothing. -/
def bucketTags (tagKey : String) (d : TagDict) : TagDict :=
  match d.get? tagKey with
  | none => .empty
  | some v => if v = "" then .empty else Dict.empty.set tagKey v

def costKey (c : FocusCharge) (service tagValue : String) : CostKey where
  accountId := c.accountId
  service := service
  periodStart := c.periodStart
  periodEnd := c.periodEnd
  billingCurrency := c.billingCurrency
  tagValue := tagValue

/-- Cost-weighted: each input row's cost goes to its own tag value. -/
def costRows (tagKey : String) (c : FocusCharge) : List Contribution :=
  (c.tags.zip c.perRowCosts).map fun p =>
    ⟨costKey c (serviceKey c) (valueOf tagKey p.1), p.2.1, p.2.2, bucketTags tagKey p.1⟩

def perValueCount (tagKey : String) (c : FocusCharge) : Dict String Nat :=
  (c.tags.filterMap (·.get? tagKey)).foldl (fun d v => d.update v fun n => n.getD 0 + 1) .empty

/-- Count-weighted (`_attribute_row_count`), under the native service name. -/
def attributeRowCount (tagKey : String) (c : FocusCharge) : List Contribution :=
  let counts := (perValueCount tagKey c).items
  if counts.isEmpty then
    [⟨costKey c c.service untagged, c.billedCost, c.amortizedCost, .empty⟩]
  else
    let total := (counts.map (·.2)).sum
    counts.map fun p =>
      ⟨costKey c c.service p.1, c.billedCost * (p.2 / total), c.amortizedCost * (p.2 / total),
        Dict.empty.set tagKey p.1⟩

def contributions (tagKey : String) (c : FocusCharge) : List Contribution :=
  if c.perRowCosts ≠ [] then costRows tagKey c
  else if c.tags ≠ [] then attributeRowCount tagKey c
  else [⟨costKey c (serviceKey c) untagged, c.billedCost, c.amortizedCost, .empty⟩]

structure TagBuckets where
  sums : Dict CostKey (Rat × Rat × Nat)
  tags : Dict CostKey (List TagDict)
  canonical : Dict CostKey String
  accountNames : Dict String String

def addSums (o : Option (Rat × Rat × Nat)) (x : Contribution) : Rat × Rat × Nat :=
  let prev := o.getD (0, 0, 0)
  (prev.1 + x.billed, prev.2.1 + x.amortized, prev.2.2 + 1)

def addContribution (b : TagBuckets) (x : Contribution) : TagBuckets :=
  { b with
    sums := b.sums.update x.key fun o => addSums o x
    tags := b.tags.update x.key fun o => o.getD [] ++ [x.tags] }

/-- The buckets that remember the canonical name of a charge: its own, or with the row-count
fallback every bucket so far. -/
def canonicalKeys (tagKey : String) (c : FocusCharge) (b : TagBuckets) : List CostKey :=
  if c.perRowCosts = [] ∧ c.tags ≠ [] then b.sums.keys
  else (contributions tagKey c).map (·.key)

def rememberName (b : TagBuckets) (c : FocusCharge) : TagBuckets :=
  if c.accountName ≠ "" ∧ (b.accountNames.get? c.accountId).isNone then
    { b with accountNames := b.accountNames.set c.accountId c.accountName }
  else b

def addCharge (tagKey : String) (b : TagBuckets) (c : FocusCharge) : TagBuckets :=
  let b := (contributions tagKey c).foldl addContribution (rememberName b c)
  match c.serviceCanonical with
  | none => b
  | some name =>
    { b with
      canonical := (canonicalKeys tagKey c b).foldl (fun d k => d.set k name) b.canonical }

def TagBuckets.empty : TagBuckets := ⟨.empty, .empty, .empty, .empty⟩

def emptyTagKey : PyError := ⟨"ValueError", "tag_key must be a non-empty string"⟩

def bucketCost (tagKey : String) (b : TagBuckets) (p : CostKey × (Rat × Rat × Nat)) :
    AggregatedCost where
  accountId := p.1.accountId
  service := p.1.service
  serviceCanonical := b.canonical.get? p.1
  billedCost := p.2.1
  amortizedCost := p.2.2.1
  chargeCount := p.2.2.2
  periodStart := some p.1.periodStart
  periodEnd := some p.1.periodEnd
  tags := ((b.tags.get? p.1).getD []).foldl addUnique []
  tagKey := some tagKey
  tagValue := some p.1.tagValue
  accountName := (b.accountNames.get? p.1.accountId).getD ""
  billingCurrency := p.1.billingCurrency

/-- Re-aggregate by tag value. -/
def aggregateByTag (charges : List FocusCharge) (tagKey : String) :
    Except PyError (List AggregatedCost) :=
  if tagKey = "" then .error emptyTagKey
  else
    match charges.find? fun c => c.perRowCosts ≠ [] ∧ unparallel c with
    | some c => .error (zipMismatch c)
    | none =>
      let b := charges.foldl (addCharge tagKey) .empty
      .ok (b.sums.items.map (bucketCost tagKey b))

/-! ## What is returned -/

/-- `aggregate_by_tag` raises only for an empty tag key or for lists of different lengths. -/
theorem aggregateByTag_ok {charges : List FocusCharge} {tagKey : String} (htag : tagKey ≠ "")
    (h : ∀ c ∈ charges, c.perRowCosts = [] ∨ unparallel c = false) :
    ∃ out, aggregateByTag charges tagKey = .ok out := by
  have hnone : charges.find? (fun c => c.perRowCosts ≠ [] ∧ unparallel c) = none := by
    rw [List.find?_eq_none]
    intro c hc
    rcases h c hc with hc | hc <;> simp [hc]
  rw [aggregateByTag, if_neg htag, hnone]
  exact ⟨_, rfl⟩

theorem eq_of_aggregateByTag {charges : List FocusCharge} {tagKey : String}
    {out : List AggregatedCost} (h : aggregateByTag charges tagKey = .ok out) :
    out = (charges.foldl (addCharge tagKey) .empty).sums.items.map
      (bucketCost tagKey (charges.foldl (addCharge tagKey) .empty)) := by
  rw [aggregateByTag] at h
  split at h
  · cases h
  · split at h
    · cases h
    · cases h; rfl

/-! ## Totals -/

theorem sums_addCharge (tagKey : String) (b : TagBuckets) (c : FocusCharge) :
    (addCharge tagKey b c).sums = (contributions tagKey c).foldl
      (fun d x => d.update x.key fun o => addSums o x) b.sums := by
  have hfold : ∀ (xs : List Contribution) (b : TagBuckets),
      (xs.foldl addContribution b).sums =
        xs.foldl (fun d x => d.update x.key fun o => addSums o x) b.sums := by
    intro xs
    induction xs with
    | nil => intro b; rfl
    | cons x xs ih => intro b; exact ih (addContribution b x)
  have hname : (rememberName b c).sums = b.sums := by
    rw [rememberName]; split <;> rfl
  rw [addCharge]
  split
  · rw [hfold, hname]
  · rw [hfold, hname]

theorem sums_foldl_addCharge (tagKey : String) (charges : List FocusCharge) (b : TagBuckets) :
    (charges.foldl (addCharge tagKey) b).sums = (charges.flatMap (contributions tagKey)).foldl
      (fun d x => d.update x.key fun o => addSums o x) b.sums := by
  induction charges generalizing b with
  | nil => rfl
  | cons c charges ih =>
    rw [List.foldl_cons, ih, sums_addCharge, List.flatMap_cons, List.foldl_append]

/-- The key of an output row. -/
def outputKey (a : AggregatedCost) : CostKey where
  accountId := a.accountId
  service := a.service
  periodStart := a.periodStart.getD ⟨0⟩
  periodEnd := a.periodEnd.getD ⟨0⟩
  billingCurrency := a.billingCurrency
  tagValue := a.tagValue.getD ""

def Contribution.cost (x : Contribution) : Rat × Rat := (x.billed, x.amortized)

def AggregatedCost.cost (a : AggregatedCost) : Rat × Rat := (a.billedCost, a.amortizedCost)

/-- The (billed, amortized) total of the output rows whose keys `q` selects. -/
def totalCost (out : List AggregatedCost) (q : CostKey → Bool) : Rat × Rat :=
  ((out.filter fun a => q (outputKey a)).map (·.cost)).sum

/-- Over any set of keys the output adds up to the contributions with those keys. -/
theorem totalCost_aggregateByTag {charges : List FocusCharge} {tagKey : String}
    {out : List AggregatedCost} (h : aggregateByTag charges tagKey = .ok out)
    (q : CostKey → Bool) :
    totalCost out q =
      (((charges.flatMap (contributions tagKey)).filter fun x => q x.key).map (·.cost)).sum := by
  have hfilter : ∀ (b : TagBuckets) (l : List (CostKey × (Rat × Rat × Nat))),
      (l.map (bucketCost tagKey b)).filter (fun a => q (outputKey a)) =
        (l.filter fun p => q p.1).map (bucketCost tagKey b) := by
    intro b l
    rw [List.filter_map]
    rfl
  have hsums := sums_foldl_addCharge tagKey charges .empty
  have htotal := Dict.totalOn_foldl_update (fun x : Contribution => x.key) addSums
    (fun v => (v.1, v.2.1)) (·.cost)
    (by intro o r; cases o <;> simp [addSums, Dict.share, Contribution.cost]) q
    (charges.flatMap (contributions tagKey)) .empty
  rw [Dict.totalOn_empty, zero_add] at htotal
  rw [eq_of_aggregateByTag h, totalCost, hfilter, List.map_map, ← htotal, Dict.totalOn, hsums]
  rfl

end Focus

end Constat
