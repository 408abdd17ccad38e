import Constat.Focus.BuildInsights
import Constat.Focus.ByTag
import Constat.Focus.Loader

/-!
# Focus.LoadedCosts

The aggregators and `build_insights` on what the loader yields, in the decimals of the program: a
sum or a comparison may raise. A charge of the loader has one tag dict and one pair of costs.

* `aggregateForStorage`                           — one row per (service, period).
* `aggregate`, `aggregateByPeriod`                — the groupings of the resolver.
* `LoadedCharge.charge`                           — the charge for `aggregateByTag`.
* `buildInsights`                                 — the difference, its sign, and its text.
-/

namespace Constat

namespace Focus

namespace Loader

open Py

/-! ## Groups -/

def serviceKey (c : LoadedCharge) : String := orStr c.serviceCanonical c.service

def groupRows {κ : Type} [DecidableEq κ] (key : LoadedCharge → κ) (charges : List LoadedCharge) :
    Dict κ (List LoadedCharge) :=
  charges.foldl (fun d c => d.update (key c) fun rows => rows.getD [] ++ [c]) .empty

def billedSum (rows : List LoadedCharge) : Except DecimalError Decimal :=
  Decimal.sum (rows.map (·.billedCost))

def amortizedSum (rows : List LoadedCharge) : Except DecimalError Decimal :=
  Decimal.sum (rows.map (·.amortizedCost))

/-! ## Storage -/

structure LoadedAggregate where
  service : String
  periodStart : Date
  periodEnd : Date
  billedCost : Decimal
  amortizedCost : Decimal
  chargeCount : Nat
  region : Option String
  pricingCategory : Option String
  resourceId : Option String
  subAccountId : Option String
  tags : List TagDict
  perRowTagDicts : List TagDict
  perRowCosts : List (Decimal × Decimal)
  billingCurrency : String
  serviceCanonical : Option String
deriving DecidableEq

def bucketKey (c : LoadedCharge) : BucketKey := (serviceKey c, c.periodStart, c.periodEnd)

def aggregateBucket (p : BucketKey × List LoadedCharge) : Except PyError LoadedAggregate := do
  let (key, rows) := p
  let currencies := (rows.map (·.billingCurrency)).dedup
  if currencies.length > 1 then throw (mixedCurrencies key currencies)
  let billed ← trap (billedSum rows)
  let amortized ← trap (amortizedSum rows)
  return {
    service := orStr (mode (rows.map fun r => some r.service)) key.1
    serviceCanonical := mode (rows.map (·.serviceCanonical))
    periodStart := key.2.1
    periodEnd := key.2.2
    billedCost := billed
    amortizedCost := amortized
    chargeCount := rows.length
    region := mode (rows.map (·.region))
    pricingCategory := mode (rows.map (·.pricingCategory))
    resourceId := mode (rows.map (·.resourceId))
    subAccountId := mode (rows.map (·.subAccountId))
    tags := uniqueDicts (rows.map fun r => [r.tags])
    perRowTagDicts := rows.map (·.tags)
    perRowCosts := rows.map fun r => (r.billedCost, r.amortizedCost)
    billingCurrency := currencies.headD "USD" }

def aggregateForStorage (charges : List LoadedCharge) : Except PyError (List LoadedAggregate) :=
  (groupRows bucketKey charges).items.mapM aggregateBucket

/-! ## The resolver -/

/-- The rows of a bucket, summed; without a period the bucket is over all time. -/
def sumRows (account service currency : String) (period : Option (Date × Date))
    (rows : List LoadedCharge) : Except PyError LoadedCost := do
  let billed ← trap (billedSum rows)
  let amortized ← trap (amortizedSum rows)
  return {
    accountId := account
    service := orStr (mode (rows.map fun r => some r.service)) service
    serviceCanonical := rows.findSome? (·.serviceCanonical)
    billedCost := billed
    amortizedCost := amortized
    chargeCount := rows.length
    periodStart := period.map (·.1)
    periodEnd := period.map (·.2)
    tags := (rows.map (·.tags)).foldl addUnique []
    tagKey := none
    tagValue := none
    accountName := ((rows.find? fun r => r.accountName ≠ "").map (·.accountName)).getD ""
    billingCurrency := currency }

def accountKey (c : LoadedCharge) : String × String × String :=
  (c.accountId, serviceKey c, c.billingCurrency)

def accountCost (p : (String × String × String) × List LoadedCharge) : Except PyError LoadedCost :=
  sumRows p.1.1 p.1.2.1 p.1.2.2 none p.2

def aggregate (charges : List LoadedCharge) : Except PyError (List LoadedCost) :=
  (groupRows accountKey charges).items.mapM accountCost

def periodKey (c : LoadedCharge) : PeriodKey where
  accountId := c.accountId
  service := serviceKey c
  periodStart := c.periodStart
  periodEnd := c.periodEnd
  billingCurrency := c.billingCurrency

def periodCost (p : PeriodKey × List LoadedCharge) : Except PyError LoadedCost :=
  sumRows p.1.accountId p.1.service p.1.billingCurrency (some (p.1.periodStart, p.1.periodEnd)) p.2

def aggregateByPeriod (charges : List LoadedCharge) : Except PyError (List LoadedCost) :=
  (groupRows periodKey charges).items.mapM periodCost

/-! ## By tag -/

def tagBucket (tagKey : String) (c : LoadedCharge) : CostKey where
  accountId := c.accountId
  service := serviceKey c
  periodStart := c.periodStart
  periodEnd := c.periodEnd
  billingCurrency := c.billingCurrency
  tagValue := valueOf tagKey c.tags

/-- The charge as the resolver sees it, with its lists of one. -/
def LoadedCharge.charge (c : LoadedCharge) : DecimalCharge where
  accountId := c.accountId
  accountName := c.accountName
  service := c.service
  region := c.region
  pricingCategory := c.pricingCategory
  periodStart := c.periodStart
  periodEnd := c.periodEnd
  billedCost := c.billedCost
  amortizedCost := c.amortizedCost
  resourceId := c.resourceId
  subAccountId := c.subAccountId
  tags := [c.tags]
  billingCurrency := c.billingCurrency
  perRowCosts := [(c.billedCost, c.amortizedCost)]
  serviceCanonical := c.serviceCanonical

/-! ## Insights -/

structure CostInsight where
  ruleName : String
  resourceId : Option String
  accountId : String
  severity : Severity
  title : String
  payload : List (String × Json)
deriving DecidableEq

namespace LoadedCost

variable (agg : LoadedCost)

def drift : Except DecimalError Decimal := Decimal.sub agg.amortizedCost agg.billedCost

def displayService : String := orStr agg.serviceCanonical agg.service

def periodLabel : String :=
  match agg.periodStart, agg.periodEnd with
  | some start, some end_ => start.isoformat ++ " → " ++ end_.isoformat
  | _, _ => "all-time"

def tagSuffix : String :=
  match agg.tagKey, agg.tagValue with
  | some key, some value => " [" ++ key ++ "=" ++ value ++ "]"
  | _, _ => ""

end LoadedCost

def direction (drift : Decimal) : Except DecimalError String := do
  if ← drift.positive then return "up"
  if ← drift.negative then return "down"
  return "flat"

def buildInsight (periodLabel : String) (agg : LoadedCost) : Except PyError CostInsight := do
  let drift ← trap agg.drift
  let direction ← trap (direction drift)
  let label := if periodLabel = "" then agg.periodLabel else periodLabel
  let size ← trap drift.abs
  let billed ← agg.billedCost.toFloat
  let amortized ← agg.amortizedCost.toFloat
  let change ← drift.toFloat
  return {
    ruleName := "chargeback"
    resourceId := none
    accountId := agg.accountId
    severity := .info
    title := agg.displayService ++ " on " ++
      (if agg.accountName = "" then agg.accountId else agg.accountName) ++ " (" ++ label ++ ")" ++
      agg.tagSuffix ++ ": amortized " ++ direction ++ " by " ++ agg.billingCurrency ++ " " ++
      size.fixed2
    payload := [("service", .str agg.displayService),
      ("service_native", .str agg.service),
      ("service_canonical", optStr agg.serviceCanonical),
      ("account_id", .str agg.accountId),
      ("period_label", .str label),
      ("period_start", optDate agg.periodStart),
      ("period_end", optDate agg.periodEnd),
      ("billing_currency", .str agg.billingCurrency),
      ("billed_cost_usd", .float billed),
      ("amortized_cost_usd", .float amortized),
      ("drift_amortized_minus_billed_usd", .float change),
      ("charge_count", .int agg.chargeCount),
      ("tag_key", optStr agg.tagKey),
      ("tag_value", optStr agg.tagValue),
      ("tags", .list (agg.tags.map tagJson))] }

def buildInsights (periodLabel : String) (aggregated : List LoadedCost) :
    Except PyError (List CostInsight) := aggregated.mapM (buildInsight periodLabel)

/-- A row of Amazon RDS in January. -/
def sampleRow (tags : TagDict) (cost : Decimal) : LoadedCharge where
  accountId := "0"
  accountName := ""
  service := "Amazon RDS"
  serviceCanonical := none
  region := none
  pricingCategory := none
  periodStart := .ofYmd 2026 1 1
  periodEnd := .ofYmd 2026 1 31
  billedCost := cost
  amortizedCost := cost
  resourceId := none
  subAccountId := none
  tags := tags
  billingCurrency := "EUR"

end Loader

end Focus

end Constat
