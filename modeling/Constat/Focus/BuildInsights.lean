import Constat.Focus.Chargeback
import Constat.Py.Calendar
import Constat.Rules.Models

/-!
# Focus.BuildInsights

The rest of `constat_chargeback/resolver.py`: charges grouped by period, and the insights made of
the aggregates. An amount keeps its `*_usd` key whatever its currency; `billing_currency` beside it
says what it is.
-/

namespace Constat

namespace Focus

/-! ## By period -/

structure PeriodKey where
  accountId : String
  service : String
  periodStart : Date
  periodEnd : Date
  billingCurrency : String
deriving DecidableEq

def periodKey (c : FocusCharge) : PeriodKey where
  accountId := c.accountId
  service := serviceKey c
  periodStart := c.periodStart
  periodEnd := c.periodEnd
  billingCurrency := c.billingCurrency

def periodRows (charges : List FocusCharge) : Dict PeriodKey (List FocusCharge) :=
  charges.foldl (fun d c => d.update (periodKey c) fun rows => rows.getD [] ++ [c]) .empty

/-- The unique tag dicts, empty ones included, in first-seen order. -/
def mergeTagLists (rows : List FocusCharge) : List TagDict :=
  (rows.flatMap (·.tags)).foldl addUnique []

def firstAccountName (rows : List FocusCharge) : String :=
  ((rows.find? fun r => r.accountName ≠ "").map (·.accountName)).getD ""

def periodCost (p : PeriodKey × List FocusCharge) : AggregatedCost where
  accountId := p.1.accountId
  service := orStr (mode (p.2.map fun r => some r.service)) p.1.service
  serviceCanonical := p.2.findSome? (·.serviceCanonical)
  billedCost := (p.2.map (·.billedCost)).sum
  amortizedCost := (p.2.map (·.amortizedCost)).sum
  chargeCount := p.2.length
  periodStart := some p.1.periodStart
  periodEnd := some p.1.periodEnd
  tags := mergeTagLists p.2
  tagKey := none
  tagValue := none
  accountName := firstAccountName p.2
  billingCurrency := p.1.billingCurrency

/-- Group by (account, service, period, currency). -/
def aggregateByPeriod (charges : List FocusCharge) : List AggregatedCost :=
  (periodRows charges).items.map periodCost

/-! ## Insights -/

def AggregatedCost.drift (agg : AggregatedCost) : Rat := agg.amortizedCost - agg.billedCost

def AggregatedCost.displayService (agg : AggregatedCost) : String :=
  orStr agg.serviceCanonical agg.service

/-- The period as text, `all-time` without one. -/
def periodLabelOf (agg : AggregatedCost) : String :=
  match agg.periodStart, agg.periodEnd with
  | some start, some end_ => start.isoformat ++ " → " ++ end_.isoformat
  | _, _ => "all-time"

def labelOf (periodLabel : String) (agg : AggregatedCost) : String :=
  if periodLabel = "" then periodLabelOf agg else periodLabel

def direction (drift : Rat) : String :=
  if drift > 0 then "up" else if drift < 0 then "down" else "flat"

def tagSuffix (agg : AggregatedCost) : String :=
  match agg.tagKey, agg.tagValue with
  | some key, some value => " [" ++ key ++ "=" ++ value ++ "]"
  | _, _ => ""

def optDate (d : Option Date) : Json := optStr (d.map Date.isoformat)

def tagJson (d : TagDict) : Json := .obj (d.items.map fun p => (p.1, .str p.2))

def insightTitle (periodLabel : String) (agg : AggregatedCost) : String :=
  agg.displayService ++ " on " ++
    (if agg.accountName = "" then agg.accountId else agg.accountName) ++
    " (" ++ labelOf periodLabel agg ++ ")" ++ tagSuffix agg ++ ": amortized " ++
    direction agg.drift ++ " by " ++ agg.billingCurrency ++ " " ++
    PyFloat.fixed2 (.finite |agg.drift|)

def insightPayload (fp : Arith) (periodLabel : String) (agg : AggregatedCost) :
    List (String × Json) :=
  [("service", .str agg.displayService),
    ("service_native", .str agg.service),
    ("service_canonical", optStr agg.serviceCanonical),
    ("account_id", .str agg.accountId),
    ("period_label", .str (labelOf periodLabel agg)),
    ("period_start", optDate agg.periodStart),
    ("period_end", optDate agg.periodEnd),
    ("billing_currency", .str agg.billingCurrency),
    ("billed_cost_usd", .float (fp.fit agg.billedCost)),
    ("amortized_cost_usd", .float (fp.fit agg.amortizedCost)),
    ("drift_amortized_minus_billed_usd", .float (fp.fit agg.drift)),
    ("charge_count", .int agg.chargeCount),
    ("tag_key", optStr agg.tagKey),
    ("tag_value", optStr agg.tagValue),
    ("tags", .list (agg.tags.map tagJson))]

/-- The insight of one aggregate of `account`, whose text is the aggregate's account id. -/
def buildInsight (fp : Arith) (periodLabel : String) (account : Uuid) (agg : AggregatedCost) :
    Insight where
  ruleName := "chargeback"
  resourceId := none
  accountId := some account
  severity := .info
  title := insightTitle periodLabel agg
  payload := insightPayload fp periodLabel agg

def buildInsights (fp : Arith) (periodLabel : String) (account : Uuid)
    (aggregated : List AggregatedCost) : List Insight :=
  aggregated.map (buildInsight fp periodLabel account)

/-! ## The account of an aggregate -/

section

variable {charges : List FocusCharge} {account : String}

theorem accountId_of_byPeriod (h : ∀ c ∈ charges, c.accountId = account) {agg : AggregatedCost}
    (hagg : agg ∈ aggregateByPeriod charges) : agg.accountId = account := by
  obtain ⟨p, hp, rfl⟩ := List.mem_map.1 hagg
  have hkey : p.1 ∈ (periodRows charges).keys := List.mem_map_of_mem hp
  rw [periodRows, Dict.mem_keys_foldl_update periodKey fun o c => o.getD [] ++ [c]] at hkey
  rcases hkey with hkey | ⟨c, hc, hkey⟩
  · cases hkey
  · exact (congrArg PeriodKey.accountId hkey).symm.trans (h c hc)

theorem accountId_of_contribution {tagKey : String} {c : FocusCharge} {x : Contribution}
    (hx : x ∈ contributions tagKey c) : x.key.accountId = c.accountId := by
  unfold contributions at hx
  split at hx
  · obtain ⟨_, _, rfl⟩ := List.mem_map.1 hx
    rfl
  · split at hx
    · simp only [attributeRowCount] at hx
      split at hx
      · rw [List.mem_singleton.1 hx]; rfl
      · obtain ⟨_, _, rfl⟩ := List.mem_map.1 hx
        rfl
    · rw [List.mem_singleton.1 hx]; rfl

theorem accountId_of_byTag {tagKey : String} (h : ∀ c ∈ charges, c.accountId = account)
    {aggs : List AggregatedCost} (haggs : aggregateByTag charges tagKey = .ok aggs)
    {agg : AggregatedCost} (hagg : agg ∈ aggs) : agg.accountId = account := by
  rw [eq_of_aggregateByTag haggs] at hagg
  obtain ⟨p, hp, rfl⟩ := List.mem_map.1 hagg
  have hkey : p.1 ∈ (charges.foldl (addCharge tagKey) TagBuckets.empty).sums.keys :=
    List.mem_map_of_mem hp
  rw [sums_foldl_addCharge, Dict.mem_keys_foldl_update (fun x : Contribution => x.key) addSums]
    at hkey
  rcases hkey with hkey | ⟨x, hx, hkey⟩
  · cases hkey
  · obtain ⟨c, hc, hx⟩ := List.mem_flatMap.1 hx
    rw [bucketCost, ← hkey, accountId_of_contribution hx]
    exact h c hc

end

end Focus

end Constat
