import Constat.Currency
import Constat.Listings
import Constat.Py.CsvWriter

/-!
# InsightExport

`GET /insights/export.csv` of `routers/insights.py`: one page of the insights as a CSV, with the
amounts converted. A title may hold commas, quotes and line breaks; the writer quotes them.

* `exportInsightsCsv` — the CSV of one page, or what the conversion of an amount raises.
* `ReadsBack`         — what a reader makes of the CSV: a row for each insight of the page, in its
                        order, with the insight's own values under the names of the columns.
* `export_reads_back` — every export reads back, as long as no cell is longer than a reader takes.
-/

namespace Constat

namespace InsightExport

open Listings Py
open Currency (CsvLine exportLine)
open Paging (page)

def header : List String :=
  ["rule_name", "severity", "title", "resource_id", "account_id", "monthly_cost_usd",
    "monthly_cost_eur", "fx_rate", "fx_date", "value_basis", "computed_at"]

def cells (line : CsvLine) : List String :=
  [line.ruleName, line.severity, line.title, line.resourceId, line.accountId, line.monthlyCostUsd,
    line.monthlyCostEur, line.fxRate, line.fxDate, line.valueBasis, line.computedAt]

structure ExportFilters where
  ruleName : Option String
  severity : Option Severity
  accountId : Option Uuid

/-- The insights of the page; the export does not filter by acknowledgement. -/
def exported (t : Store) (f : ExportFilters) (order : List InsightRow → List InsightRow)
    (limit offset : Nat) : List InsightRow :=
  page limit offset (order (t.insights.rows.filter fun r => keep f.ruleName r.ruleName &&
    keep f.severity r.severity && keep (f.accountId.map some) r.accountId))

/-- The page is that of `GET /insights` with the same filters. -/
theorem serve_exported (t : Store) (f : ExportFilters) (order : List InsightRow → List InsightRow)
    (limit offset : Nat) :
    serve (listInsights t ⟨f.ruleName, f.severity, f.accountId, none⟩) order limit offset =
      .ok (exported t f order limit offset) := by
  have hall : ∀ r : InsightRow, keep (none : Option (Option AckStatus)) r.ackStatus = true :=
    fun _ => rfl
  simp only [listInsights, ackFilter, serve, Except.map, exported, hall, Bool.and_true]

def exportInsightsCsv (fp : Arith) (t : Store) (f : ExportFilters)
    (order : List InsightRow → List InsightRow) (limit offset : Nat) : Except PyError String :=
  (Currency.exportCsv fp (exported t f order limit offset)).map fun lines =>
    Csv.written .crlf (header :: lines.map cells)

/-! ## Reading back -/

/-- The row a reader has of a line. -/
structure RowOf (line : CsvLine) (row : Csv.Row) : Prop where
  ruleName : row.get? "rule_name" = some (some line.ruleName)
  severity : row.get? "severity" = some (some line.severity)
  title : row.get? "title" = some (some line.title)
  resourceId : row.get? "resource_id" = some (some line.resourceId)
  accountId : row.get? "account_id" = some (some line.accountId)
  monthlyCostUsd : row.get? "monthly_cost_usd" = some (some line.monthlyCostUsd)
  monthlyCostEur : row.get? "monthly_cost_eur" = some (some line.monthlyCostEur)
  fxRate : row.get? "fx_rate" = some (some line.fxRate)
  fxDate : row.get? "fx_date" = some (some line.fxDate)
  valueBasis : row.get? "value_basis" = some (some line.valueBasis)
  computedAt : row.get? "computed_at" = some (some line.computedAt)

theorem rowOf_cells (line : CsvLine) : RowOf line (Csv.dictRow header (cells line)) := by
  obtain ⟨a, b, c, d, e, f, g, h, i, j, k⟩ := line
  have hrow : ∃ rest : Csv.Row, Csv.dictRow header (cells ⟨a, b, c, d, e, f, g, h, i, j, k⟩) =
      ((((((((((rest.set "rule_name" (some a)).set "severity" (some b)).set "title"
        (some c)).set "resource_id" (some d)).set "account_id" (some e)).set "monthly_cost_usd"
        (some f)).set "monthly_cost_eur" (some g)).set "fx_rate" (some h)).set "fx_date"
        (some i)).set "value_basis" (some j)).set "computed_at" (some k) := ⟨.empty, rfl⟩
  obtain ⟨rest, hrow⟩ := hrow
  rw [hrow]
  constructor <;> simp [Dict.get?_set]

/-- What a reader makes of the CSV of a page. -/
structure ReadsBack (fp : Arith) (insights : List InsightRow) (csv : String) : Prop where
  error : (Csv.read csv).error = none
  fieldnames : (Csv.read csv).fieldnames = some header
  rows : List.Forall₂ (fun i row => ∃ line, exportLine fp i = .ok line ∧ RowOf line row.2) insights
    (Csv.read csv).rows

theorem export_reads_back {fp : Arith} {t : Store} {f : ExportFilters}
    {order : List InsightRow → List InsightRow} {limit offset : Nat} {csv : String}
    (hcsv : exportInsightsCsv fp t f order limit offset = .ok csv)
    (hfits : ∀ i ∈ exported t f order limit offset, ∀ line, exportLine fp i = .ok line →
      ∀ s ∈ cells line, s.toList.length ≤ Csv.fieldLimit) :
    ReadsBack fp (exported t f order limit offset) csv := by
  generalize hpage : exported t f order limit offset = insights at *
  rw [exportInsightsCsv, hpage] at hcsv
  cases hlines : Currency.exportCsv fp insights with
  | error e => rw [hlines] at hcsv; cases hcsv
  | ok lines =>
    rw [hlines] at hcsv
    cases hcsv
    have hall : List.Forall₂ (fun i line => exportLine fp i = .ok line) insights lines :=
      Loop.mapM_ok hlines
    have hlen : ∀ row ∈ header :: lines.map cells, ∀ s ∈ row, s.toList.length ≤ Csv.fieldLimit := by
      rw [List.forall_mem_cons]
      refine ⟨by decide, fun row hrow => ?_⟩
      obtain ⟨line, hline, rfl⟩ := List.mem_map.1 hrow
      obtain ⟨i, hi, hexport⟩ := Loop.exists_left hall hline
      exact hfits i hi line hexport
    have hne : ∀ row ∈ lines.map cells, row ≠ [] := by
      intro row hrow
      obtain ⟨line, _, rfl⟩ := List.mem_map.1 hrow
      simp [cells]
    obtain ⟨hnames, hrows⟩ := Csv.rows_written .crlf hlen hne
    refine ⟨(Csv.read_written .crlf hlen).2, hnames, ?_⟩
    generalize (Csv.read (Csv.written .crlf (header :: lines.map cells))).rows = rows at hrows
    clear hpage hlines hfits hlen hne hnames
    induction hall generalizing rows with
    | nil =>
      rw [List.map_nil, List.map_nil, List.map_eq_nil_iff] at hrows
      rw [hrows]
      exact .nil
    | @cons i line insights lines hline _ ih =>
      cases rows with
      | nil => cases hrows
      | cons row rows =>
        rw [List.map_cons, List.map_cons, List.map_cons, List.cons.injEq] at hrows
        exact .cons ⟨line, hline, hrows.1 ▸ rowOf_cells line⟩ (ih rows hrows.2)

def leak : InsightRow where
  id := 1
  ruleName := "ebs_unattached"
  resourceId := some 2
  accountId := none
  severity := .warning
  title := "vol-1, the \"old\" one\nof the data team"
  payload := [("monthly_waste_usd", .float (.finite 12))]
  computedAt := History.tenthOfDecember
  ackStatus := none
  ackAt := none
  ackBy := none

def leaking : Store := applyWrite .empty (.insight leak)

def leakLine : CsvLine :=
  ⟨"ebs_unattached", "warning", leak.title, "00000000-0000-0000-0000-000000000002", "", "12.00",
    "10.49", "0.874508", "2026-07-17", "ESTIMATED", "2026-12-10T22:00:00+00:00"⟩

def leakCsv : String :=
  "rule_name,severity,title,resource_id,account_id,monthly_cost_usd,monthly_cost_eur,fx_rate," ++
  "fx_date,value_basis,computed_at\r\n" ++
  "ebs_unattached,warning,\"vol-1, the \"\"old\"\" one\nof the data team\"," ++
  "00000000-0000-0000-0000-000000000002,,12.00,10.49,0.874508,2026-07-17,ESTIMATED," ++
  "2026-12-10T22:00:00+00:00\r\n"

theorem leak_reads_back :
    ReadsBack .double (exported leaking ⟨none, none, none⟩ id 500 0) leakCsv := by
  have hline : exportLine .double leak = .ok leakLine := by decide +kernel
  have hfit : ∀ s ∈ cells leakLine, s.toList.length ≤ Csv.fieldLimit := by decide +kernel
  refine export_reads_back (by decide +kernel) fun i hi line hexport => ?_
  obtain rfl := List.mem_singleton.1 hi
  rw [hline] at hexport
  cases hexport
  exact hfit

end InsightExport

end Constat
