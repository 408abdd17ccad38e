import Constat.Focus.Ingest
import Constat.Py.Decimal
import Constat.Py.Isoformat
import Constat.Py.JsonText

/-!
# Focus.Loader

`constat_focus/loader.py` and its dialects: a table of cells becomes charges, row by row, from a CSV
file or from a Parquet file. A row that does not parse is reported to `on_skip` and left out.

* `rowToCharge`      — one row, in the order in which the code parses its cells.
* `autoDetect`       — the provider that the first row shows.
* `loadFocusCsv`     — the first row is replayed when the provider is to be detected; the reader
                       refuses a field that is too long.
* `loadFocusParquet` — nulls become empty cells; nothing is detected without a first row.
-/

namespace Constat

namespace Focus

namespace Loader

open Py

/-! ## Cells -/

inductive RowError where
  | billingCurrency
  | date
  | missingKey
  | recursion
deriving DecidableEq

/-- What the code reads besides the file: the levels of nesting that the recursion limit leaves to
`json.loads`, `str.lower` and the service catalog. -/
structure LoaderEnv where
  levels : Nat
  lower : String → String
  catalog : ServiceCatalog

/-- The cells of one row by column. -/
abbrev Row := List (String × String)

def Row.get? (row : Row) (column : String) : Option String :=
  (row.find? fun p => p.1 = column).map (·.2)

def stripText (s : String) : String := String.ofList (strip s.toList)

def nullSentinel : String := " "

def parseTags (env : LoaderEnv) (raw : Option String) : Except RowError TagDict :=
  match raw.map stripText with
  | none => .ok .empty
  | some raw =>
    if raw = "" ∨ raw = nullSentinel then .ok .empty
    else
      match loads env.levels raw with
      | .ok (.obj fields) => .ok ((fields.filter fun p => p.2 ≠ .null).foldl
          (fun d p => d.set p.1 (str p.2)) .empty)
      | .ok _ => .ok .empty
      -- no ValueError
      | .error .recursionError => .error .recursion
      | .error _ => .ok .empty

def validCurrencies : List String :=
  ["USD", "EUR", "GBP", "JPY", "AUD", "CAD", "CHF", "CNY", "INR", "BRL", "SGD", "NZD"]

/-- Every code of the set is three capital letters, so the checks before the last one refuse no
code that it lets pass. -/
def parseBillingCurrency (raw : Option String) : Except RowError String :=
  match raw.map stripText with
  | none => .error .billingCurrency
  | some code => if code ∈ validCurrencies then .ok code else .error .billingCurrency

/-- `Decimal("0")` when the cell is empty or raises. -/
def parseDecimal (cell : Option String) : Decimal :=
  match cell with
  | none => .zero
  | some s => if s = "" then .zero else (Decimal.parse s).getD .zero

def optCell (cell : Option String) : Option String :=
  match cell.map stripText with
  | none => none
  | some s => if s = "" ∨ s = nullSentinel then none else some s

def textCell (cell : Option String) : String := stripText (cell.getD "")

/-- `date.fromisoformat(s)`. -/
def dateOfIsoformat (cs : List Char) : Option Date :=
  if cs.length = 7 ∨ cs.length = 8 ∨ cs.length = 10 then Isoformat.date cs else none

def parseDate (s : String) : Except RowError Date :=
  let utc := s.toList.flatMap fun c => if c = 'Z' then ['+', '0', '0', ':', '0', '0'] else [c]
  match Date.ofIsoformat (String.ofList utc) with
  | some d => .ok d
  | none => (dateOfIsoformat (s.toList.take 10)).elim (.error .date) .ok

/-! ## Rows -/

/-- A charge of the loader: `tags` and `per_row_costs` are the lists of its one tag dict and of its
one pair of costs. -/
structure LoadedCharge where
  accountId : String
  accountName : String
  service : String
  serviceCanonical : Option String
  region : Option String
  pricingCategory : Option String
  periodStart : Date
  periodEnd : Date
  billedCost : Decimal
  amortizedCost : Decimal
  resourceId : Option String
  subAccountId : Option String
  tags : TagDict
  billingCurrency : String
deriving DecidableEq

def dateCell (row : Row) (column : String) : Except RowError Date :=
  (row.get? column).elim (.error .missingKey) parseDate

def canonicalOf (env : LoaderEnv) (provider : Option String) (service : String) : Option String :=
  match provider with
  | none => none
  | some p => if p = "" then none else env.catalog.canonicalFor env.lower p service

def orElse (a b : Option String) : Option String := if a.isSome then a else b

def rowToCharge (env : LoaderEnv) (provider : Option String) (row : Row) :
    Except RowError LoadedCharge := do
  let tags ← parseTags env (row.get? "Tags")
  let currency ← parseBillingCurrency (row.get? "BillingCurrency")
  let service := textCell (row.get? "ServiceName")
  let periodStart ← dateCell row "ChargePeriodStart"
  let periodEnd ← dateCell row "ChargePeriodEnd"
  return {
    accountId := textCell (row.get? "BillingAccountId")
    accountName := textCell (row.get? "BillingAccountName")
    service := service
    serviceCanonical := canonicalOf env provider service
    region := orElse (optCell (row.get? "RegionId")) (optCell (row.get? "Region"))
    pricingCategory := optCell (row.get? "PricingCategory")
    periodStart := periodStart
    periodEnd := periodEnd
    billedCost := parseDecimal (row.get? "BilledCost")
    amortizedCost := parseDecimal (row.get? "EffectiveCost")
    resourceId := optCell (row.get? "ResourceId")
    subAccountId := optCell (row.get? "SubAccountId")
    tags := tags
    billingCurrency := currency }

/-! ## Dialects -/

structure Dialect where
  providerName : String
  provider : String
  publisher : String
  issuer : String

def awsDialect : Dialect := ⟨"aws", "AWS", "Amazon Web Services", "Amazon Web Services"⟩

def azureDialect : Dialect := ⟨"azure", "Microsoft", "Microsoft", "Microsoft"⟩

/-- The confidence that the dialect applies, in tenths. -/
def Dialect.detect (d : Dialect) (first : Row) : Nat :=
  if textCell (first.get? "ProviderName") = d.provider then 10
  else if textCell (first.get? "PublisherName") = d.publisher then 10
  else if contains d.issuer.toList (textCell (first.get? "InvoiceIssuerName")).toList then 9
  else 0

/-- The dialects after AWS, which is the baseline and wins a tie. -/
def registry : List Dialect := [azureDialect]

def autoDetect (first : Row) : Dialect :=
  registry.foldl (fun best d => if d.detect first > best.detect first then d else best) awsDialect

/-! ## Tables -/

def requiredColumns : List String :=
  ["BillingAccountId", "BillingAccountName", "ServiceName", "ChargePeriodStart", "ChargePeriodEnd",
    "BilledCost", "EffectiveCost", "PricingCategory", "ResourceId", "SubAccountId",
    "BillingCurrency"]

def regionColumns : List String := ["RegionId", "Region"]

def validColumns (columns : List String) : Bool :=
  requiredColumns.all (· ∈ columns) && regionColumns.any (· ∈ columns)

/-- A table of string cells with valid columns; `none` is a null of the Parquet file and an empty
cell of the CSV file. -/
structure FocusTable where
  columns : List String
  rows : List (List (Option String))
  nodup : columns.Nodup
  width : ∀ r ∈ rows, r.length = columns.length
  valid : validColumns columns = true

inductive LoaderError where
  | missingColumns
  | unknownProvider (provider : String)
  | csvField
deriving DecidableEq

/-- What a consumer of the generator sees. -/
inductive Event where
  | charge (c : LoadedCharge)
  | skip (row : Nat) (e : RowError)
deriving DecidableEq

structure Load where
  events : List Event
  raised : Option LoaderError
deriving DecidableEq

def Load.charges (l : Load) : List LoadedCharge :=
  l.events.filterMap fun
    | .charge c => some c
    | .skip _ _ => none

section

variable (env : LoaderEnv) (provider : Option String)

def convert (n : Nat) (row : Row) : Event :=
  match rowToCharge env provider row with
  | .ok c => .charge c
  | .error e => .skip n e

/-- The loop over the rows; `n` is the number of the first one. -/
def loadRows : Nat → List Row → List Event
  | _, [] => []
  | n, row :: rows => convert env provider n row :: loadRows (n + 1) rows

end

def supportedProviders : List String := ["aws", "azure"]

def checkProvider (provider : Option String) : Option LoaderError :=
  match provider with
  | none => none
  | some p => if p ∈ supportedProviders then none else some (.unknownProvider p)

/-! ## CSV -/

/-- `csv.field_size_limit()`. -/
def fieldLimit : Nat := 131072

def readable (field : String) : Bool := field.length ≤ fieldLimit

def csvRecord (cells : List (Option String)) : List String := cells.map (·.getD "")

/-- The rows the reader gives, and what it raises after them. -/
def csvRows (t : FocusTable) : List Row × Option LoaderError :=
  let records := t.rows.map csvRecord
  ((records.takeWhile fun r => r.all readable).map fun r => t.columns.zip r,
    if records.all fun r => r.all readable then none else some .csvField)

/-- The rows after the provider is known. -/
def loadFrom (env : LoaderEnv) (provider : Option String) (n : Nat) (rows : List Row)
    (raised : Option LoaderError) : Load :=
  match checkProvider provider with
  | some e => ⟨[], some e⟩
  | none => ⟨loadRows env provider n rows, raised⟩

def loadFocusCsv (env : LoaderEnv) (provider : Option String) (t : FocusTable) : Load :=
  if t.columns.all readable = false then ⟨[], some .csvField⟩
  else if validColumns t.columns = false then ⟨[], some .missingColumns⟩
  else
    let (rows, raised) := csvRows t
    if provider = some "auto" then
      match rows, raised with
      | [], some e => ⟨[], some e⟩
      | [], none => loadFrom env (some (autoDetect []).providerName) 3 [] none
      | first :: rows, raised =>
        let provider := some (autoDetect first).providerName
        let rest := loadFrom env provider 3 rows raised
        ⟨convert env provider 2 first :: rest.events, rest.raised⟩
    else loadFrom env provider 2 rows raised

/-! ## Parquet -/

/-- `"" if v is None else str(v)`. -/
def nullToEmpty : Option String → String
  | none => ""
  | some s => s

def parquetRow (columns : List String) (cells : List (Option String)) : Row :=
  columns.zip (cells.map nullToEmpty)

def loadFocusParquet (env : LoaderEnv) (provider : Option String) (t : FocusTable) : Load :=
  if validColumns t.columns = false then ⟨[], some .missingColumns⟩
  else
    let rows := t.rows.map (parquetRow t.columns)
    let provider :=
      if provider = some "auto" then
        match rows with
        | [] => provider
        | first :: _ => some (autoDetect first).providerName
      else provider
    loadFrom env provider 0 rows none

end Loader

end Focus

end Constat
