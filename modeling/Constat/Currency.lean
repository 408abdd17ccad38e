import Constat.Catalog.Fx
import Constat.ChargebackAcks

/-!
# Currency

What the readers of chargeback insights make of their amounts. An amount is stored under a `*_usd`
key whatever its currency, and the CSV export, the resolved total of the event log and the totals
of the restitution page read the key and not the currency beside it.

* `exportLine`, `resolvedMonthlyUsdTotal`, `chargebackSummary` — the three readers.
* `Entry`    — an amount the resolved total adds up, with the currency of its insight; the program
               does not keep the currency.
* `Kept`     — every reader treats each amount in its own currency.
* `kept_iff` — along every history, all states are kept iff every run emits USD only, in amounts
               that the export can convert.
-/

namespace Constat

open Runner

def Severity.value : Severity → String
  | .info => "info"
  | .warning => "warning"
  | .critical => "critical"

namespace Currency

/-! ## The CSV export -/

structure CsvLine where
  ruleName : String
  severity : String
  title : String
  resourceId : String
  accountId : String
  monthlyCostUsd : String
  monthlyCostEur : String
  fxRate : String
  fxDate : String
  valueBasis : String
  computedAt : String
deriving DecidableEq

def valueBasis (ruleName : String) : String :=
  if (InsightEvents.monetaryKey ruleName).isSome then "ESTIMATED" else ""

def csvLine (i : InsightRow) (usd eur rate date : String) : CsvLine where
  ruleName := i.ruleName
  severity := i.severity.value
  title := i.title
  resourceId := i.resourceId.elim "" Uuid.text
  accountId := i.accountId.elim "" Uuid.text
  monthlyCostUsd := usd
  monthlyCostEur := eur
  fxRate := rate
  fxDate := date
  valueBasis := valueBasis i.ruleName
  computedAt := Micros.isoformat i.computedAt

def eurText (eur : Option Fx.Quantized) : String := eur.elim "NaN" (·.text 2)

def exportLine (fp : Arith) (i : InsightRow) : Except PyError CsvLine :=
  match InsightEvents.monthlyCost fp i.ruleName i.payload with
  | none => .ok (csvLine i "" "" "" "")
  | some cost => (Fx.usdToEur cost).map fun (eur, rate, date) =>
      csvLine i cost.fixed2 (eurText eur) (rate.text 6) date.isoformat

/-- The lines of one page of insights; the header has the names of the columns. -/
def exportCsv (fp : Arith) (page : List InsightRow) : Except PyError (List CsvLine) :=
  page.mapM (exportLine fp)

/-! ## The restitution page -/

def accountKey (i : InsightRow) : String := i.accountId.elim "unknown" Uuid.text

def groupByAccount (rows : List InsightRow) : Dict String (List InsightRow) :=
  rows.foldl (fun groups i => groups.update (accountKey i) fun g => g.getD [] ++ [i]) .empty

/-- `rows.reduce((acc, r) => acc + (r.payload[key] ?? 0), 0)`. -/
def sumField (fp : Arith) (key : String) (rows : List InsightRow) : PyFloat :=
  rows.foldl (fun acc r => fp.add acc
    (((Json.get? r.payload key).bind (InsightEvents.asFloat fp)).getD (.finite 0))) (.finite 0)

structure AccountTotals where
  account : String
  billed : PyFloat
  amortized : PyFloat
  drift : PyFloat

def accountTotals (fp : Arith) (g : String × List InsightRow) : AccountTotals where
  account := g.1
  billed := sumField fp "billed_cost_usd" g.2
  amortized := sumField fp "amortized_cost_usd" g.2
  drift := fp.sub (sumField fp "amortized_cost_usd" g.2) (sumField fp "billed_cost_usd" g.2)

/-- The chargeback table of a page of insights, by account. -/
def chargebackSummary (fp : Arith) (page : List InsightRow) : List AccountTotals :=
  ((groupByAccount page).items.map (accountTotals fp)).mergeSort fun a b => a.account ≤ b.account

/-! ## Histories -/

/-- The currency an insight is in; every amount that says nothing else comes from a catalog. -/
def currencyOf (r : InsightRow) : String :=
  (Chargeback.strField r.payload "billing_currency").getD "USD"

abbrev Entry := Option PyFloat × String

/-- The currency of a logged amount: that of the insight whose end is logged. -/
def loggedCurrency (t : Store) (e : InsightEventRow) : String :=
  if e.ruleName = "chargeback" then
    ((InsightEvents.snapshotRule t "chargeback").get? e.fingerprint).elim "USD" currencyOf
  else "USD"

def isResolved (e : InsightEventRow) : Bool := e.event = .resolved

/-- The amounts a step adds to the resolved total. -/
def entries (t t' : Store) : List Entry :=
  ((newEvents t t').filter isResolved).map fun e => (e.monthlyUsd, loggedCurrency t e)

inductive Event where
  | run (env : Chargeback.Env)
  | elsewhere (t' : Store)

structure State where
  store : Store
  entries : List Entry

def storeStep (fp : Arith) (t : Store) : Event → Store
  | .run env => Chargeback.runStep fp env t
  | .elsewhere t' => t'

def step (fp : Arith) (s : State) (e : Event) : State where
  store := storeStep fp s.store e
  entries := s.entries ++ entries s.store (storeStep fp s.store e)

/-- What happens elsewhere leaves the chargeback insights alone, but for acknowledgements, and logs
events of the other rules only. -/
def Outside (s : State) : Event → Prop
  | .run _ => True
  | .elsewhere t' =>
    (∀ r ∈ Insights.ofRule t' "chargeback", ∃ r₀ ∈ Insights.ofRule s.store "chargeback",
      r = { r₀ with ackStatus := r.ackStatus, ackAt := r.ackAt, ackBy := r.ackBy }) ∧
    t'.insightEvents.rows = s.store.insightEvents.rows ++ newEvents s.store t' ∧
    ∀ e ∈ newEvents s.store t', e.ruleName ≠ "chargeback"

/-- A line treats the amount of its insight in the insight's currency. -/
structure LineKept (fp : Arith) (r : InsightRow) (line : CsvLine) : Prop where
  usd : currencyOf r = "USD" → some line.monthlyCostUsd =
    (InsightEvents.monthlyCost fp r.ruleName r.payload).map PyFloat.fixed2
  eur : currencyOf r = "EUR" → some line.monthlyCostEur =
    (InsightEvents.monthlyCost fp r.ruleName r.payload).map PyFloat.fixed2
  notUsd : currencyOf r ≠ "USD" → line.monthlyCostUsd = ""

/-- Every reader treats each amount in its own currency: the export on every page of chargeback
insights, the resolved total, and the totals by account on every page. -/
structure Kept (fp : Arith) (s : State) : Prop where
  csv : ∀ page, page ⊆ Insights.ofRule s.store "chargeback" →
    ∃ lines, exportCsv fp page = .ok lines ∧ List.Forall₂ (LineKept fp) page lines
  total : InsightEvents.resolvedMonthlyUsdTotal fp s.store.insightEvents.rows =
    s.entries.foldl (fun total x => fp.add total (x.1.getD (.finite 0))) (.finite 0)
  log : ∀ x ∈ s.entries, ∀ y ∈ s.entries, x.2 = y.2
  web : ∀ page, page ⊆ Insights.ofRule s.store "chargeback" →
    ∀ g ∈ (groupByAccount page).items, ∀ r ∈ g.2, ∀ r' ∈ g.2, currencyOf r = currencyOf r'

/-- An aggregate in USD, of an amount that can be converted. -/
def InUsd (fp : Arith) (agg : Focus.AggregatedCost) : Prop :=
  agg.billingCurrency = "USD" ∧ (Fx.usdToEur (fp.fit agg.drift)).isOk = true

def EmitsUsd (fp : Arith) (s : State) : Event → Prop
  | .run env => ∀ account ∈ Chargeback.accountIds env s.store,
    ∀ agg ∈ Chargeback.aggregatesOf env s.store account, InUsd fp agg
  | .elsewhere _ => True

/-! ## One line -/

theorem fixed2_ne_empty (x : PyFloat) : x.fixed2 ≠ "" := by
  intro h
  have hlist := congrArg String.toList h
  unfold PyFloat.fixed2 at hlist
  split at hlist
  · simp at hlist
  · split at hlist <;> simp at hlist
  · simp [PyFloat.pointed] at hlist

section

variable {fp : Arith} {label : String} {agg : Focus.AggregatedCost} {r : InsightRow}

theorem currencyOf_rowOf (h : Chargeback.RowOf fp label agg r) :
    currencyOf r = agg.billingCurrency := by
  rw [currencyOf, h.payload]
  rfl

theorem monthlyCost_rowOf (h : Chargeback.RowOf fp label agg r) (hname : r.ruleName = "chargeback") :
    InsightEvents.monthlyCost fp r.ruleName r.payload = some (fp.fit agg.drift) := by
  rw [h.payload, hname]
  rfl

theorem exportLine_rowOf (h : Chargeback.RowOf fp label agg r) (hname : r.ruleName = "chargeback") :
    exportLine fp r = (Fx.usdToEur (fp.fit agg.drift)).map fun (eur, rate, date) =>
      csvLine r (fp.fit agg.drift).fixed2 (eurText eur) (rate.text 6) date.isoformat := by
  rw [exportLine, monthlyCost_rowOf h hname]

/-- The export treats an aggregate's insight as it should exactly when it is in USD. -/
theorem line_kept_iff (h : Chargeback.RowOf fp label agg r) (hname : r.ruleName = "chargeback") :
    (∃ line, exportLine fp r = .ok line ∧ LineKept fp r line) ↔ InUsd fp agg := by
  rw [exportLine_rowOf h hname]
  cases hconvert : Fx.usdToEur (fp.fit agg.drift) with
  | error e =>
    constructor
    · rintro ⟨line, hline, _⟩
      cases hline
    · rintro ⟨_, hok⟩
      rw [hconvert] at hok
      cases hok
  | ok converted =>
    have hcost := monthlyCost_rowOf h hname
    constructor
    · rintro ⟨line, hline, hkept⟩
      cases hline
      refine ⟨by_contra fun hne => ?_, by rw [hconvert]; rfl⟩
      rw [← currencyOf_rowOf h] at hne
      exact fixed2_ne_empty _ (hkept.notUsd hne)
    · rintro ⟨husd, _⟩
      rw [← currencyOf_rowOf h] at husd
      refine ⟨_, rfl, fun _ => ?_, fun heur => ?_, fun hne => absurd husd hne⟩
      · rw [hcost]
        rfl
      · rw [husd] at heur
        exact absurd heur (by decide)

end

/-! ## Whole histories -/

theorem logged_runStep (fp : Arith) (env : Chargeback.Env) (t : Store) :
    Logged fp "chargeback" t (Chargeback.runStep fp env t) :=
  (Chargeback.runChargeback_effect fp env (.begin t)).2

theorem rows_append (fp : Arith) {s : State} {e : Event} (h : Outside s e) :
    (step fp s e).store.insightEvents.rows =
      s.store.insightEvents.rows ++ newEvents s.store (step fp s e).store := by
  cases e with
  | run env => exact (logged_runStep fp env s.store).events
  | elsewhere t' => exact h.2.1

/-- What the resolved total adds up is entered. -/
def Totalled (fp : Arith) (s : State) : Prop :=
  InsightEvents.resolvedMonthlyUsdTotal fp s.store.insightEvents.rows =
    s.entries.foldl (fun total x => fp.add total (x.1.getD (.finite 0))) (.finite 0)

theorem totalled_step {fp : Arith} {s : State} {e : Event} (hs : Totalled fp s)
    (h : Outside s e) : Totalled fp (step fp s e) := by
  have hrows := rows_append fp h
  rw [Totalled, hrows, InsightEvents.resolvedMonthlyUsdTotal, List.filter_append, List.foldl_append]
  have hbefore := hs
  rw [Totalled, InsightEvents.resolvedMonthlyUsdTotal] at hbefore
  rw [hbefore, step, List.foldl_append, entries, List.foldl_map]
  rfl

/-- Every chargeback insight and every entry is in USD. -/
structure AllUsd (fp : Arith) (s : State) : Prop where
  rows : ∀ r ∈ Insights.ofRule s.store "chargeback",
    ∃ label agg, Chargeback.RowOf fp label agg r ∧ InUsd fp agg
  entries : ∀ x ∈ s.entries, x.2 = "USD"

theorem loggedCurrency_usd {fp : Arith} {s : State} (h : AllUsd fp s) (e : InsightEventRow) :
    loggedCurrency s.store e = "USD" := by
  unfold loggedCurrency
  split
  · cases hget : (InsightEvents.snapshotRule s.store "chargeback").get? e.fingerprint with
    | none => rfl
    | some r =>
      obtain ⟨_, agg, hrow, husd⟩ := h.rows r (fingerprint_snapshotRule hget).1
      exact (currencyOf_rowOf hrow).trans husd.1
  · rfl

theorem allUsd_step {fp : Arith} {s : State} {e : Event} (hs : AllUsd fp s) (hout : Outside s e)
    (h : EmitsUsd fp s e) : AllUsd fp (step fp s e) := by
  constructor
  · cases e with
    | run env =>
      intro r hr
      obtain ⟨_, account, haccount, agg, hagg, hrow⟩ := Chargeback.fresh_row hr
      exact ⟨env.periodLabel, agg, hrow, h account haccount agg hagg⟩
    | elsewhere t' =>
      intro r hr
      obtain ⟨r₀, hr₀, heq⟩ := hout.1 r hr
      obtain ⟨label, agg, hrow, husd⟩ := hs.rows r₀ hr₀
      refine ⟨label, agg, ?_, husd⟩
      rw [heq]
      exact ⟨hrow.account, hrow.resourceId, hrow.payload⟩
  · intro x hx
    rcases List.mem_append.1 hx with hx | hx
    · exact hs.entries x hx
    · obtain ⟨event, _, rfl⟩ := List.mem_map.1 hx
      exact loggedCurrency_usd hs event

theorem mem_group {page : List InsightRow} {g : String × List InsightRow}
    (h : g ∈ (groupByAccount page).items) {r : InsightRow} (hr : r ∈ g.2) : r ∈ page := by
  rw [(Dict.mem_items_group.1 h).1] at hr
  exact (List.mem_filter.1 hr).1

theorem kept_of_allUsd {fp : Arith} {s : State} (htotal : Totalled fp s) (h : AllUsd fp s) :
    Kept fp s where
  csv page hpage := Loop.exists_mapM fun r hr => by
    obtain ⟨label, agg, hrow, husd⟩ := h.rows r (hpage hr)
    exact (line_kept_iff hrow (of_decide_eq_true (List.mem_filter.1 (hpage hr)).2)).2 husd
  total := htotal
  log x hx y hy := (h.entries x hx).trans (h.entries y hy).symm
  web page hpage g hg r hr r' hr' := by
    have husd : ∀ x ∈ g.2, currencyOf x = "USD" := by
      intro x hx
      obtain ⟨_, agg, hrow, husd⟩ := h.rows x (hpage (mem_group hg hx))
      exact (currencyOf_rowOf hrow).trans husd.1
    rw [husd r hr, husd r' hr']

/-- After a run, a kept state says that the run emitted USD only. -/
theorem emitsUsd_of_kept {fp : Arith} {s : State} {e : Event} (h : Kept fp (step fp s e)) :
    EmitsUsd fp s e := by
  cases e with
  | elsewhere t' => exact trivial
  | run env =>
    intro account haccount agg hagg
    obtain ⟨r, hr, hrow⟩ := Chargeback.row_of_aggregate fp haccount hagg
    obtain ⟨lines, hlines, hall⟩ := h.csv [r] (List.cons_subset.2 ⟨hr, List.nil_subset _⟩)
    have hall' := Loop.mapM_ok hlines
    cases hall' with
    | cons hline _ =>
      cases hall with
      | cons hkept _ =>
        exact (line_kept_iff hrow (of_decide_eq_true (List.mem_filter.1 hr).2)).1
          ⟨_, hline, hkept⟩

/-- Nothing has run yet. -/
structure Start (s : State) : Prop where
  insights : Insights.ofRule s.store "chargeback" = []
  events : s.store.insightEvents.rows = []
  entries : s.entries = []

/-- Along every history, the readers treat every amount in its own currency in every state exactly
when every run emits USD only, in amounts that can be converted. -/
theorem kept_iff (fp : Arith) {s : State} (hs : Start s) {es : List Event}
    (hout : Trace.Along (step fp) Outside s es) :
    Trace.Always (step fp) (Kept fp) s es ↔ Trace.Along (step fp) (EmitsUsd fp) s es := by
  have htotal : Totalled fp s := by
    rw [Totalled, hs.events, hs.entries]
    rfl
  have husd : AllUsd fp s := by
    refine ⟨fun r hr => ?_, fun x hx => ?_⟩
    · rw [hs.insights] at hr
      cases hr
    · rw [hs.entries] at hx
      cases hx
  constructor
  · intro h
    refine Trace.Along.of_prefix fun pre e suf he => emitsUsd_of_kept ?_
    have hprefix := Trace.Always.iff_prefix.1 h (pre ++ [e]) suf (by simp [he])
    rwa [Trace.exec_append] at hprefix
  · intro h
    have hboth := Trace.Along.and_iff.2 ⟨hout, h⟩
    have hstep : ∀ s e, Totalled fp s ∧ AllUsd fp s → Outside s e ∧ EmitsUsd fp s e →
        Totalled fp (step fp s e) ∧ AllUsd fp (step fp s e) := by
      intro s e hinv hgood
      exact ⟨totalled_step hinv.1 hgood.1, allUsd_step hinv.2 hgood.1 hgood.2⟩
    exact (Trace.Along.always hstep ⟨htotal, husd⟩ hboth).mono
      fun s hinv => kept_of_allUsd hinv.1 hinv.2

/-! ### A bill in euros -/

def eurBill : Store := Chargeback.ingested [{ Chargeback.rdsBill 1 with billingCurrency := "EUR" }]

theorem start_ingested {store : Store} (h : Insights.ofRule store "chargeback" = [])
    (h' : store.insightEvents.rows = []) : Start ⟨store, []⟩ := ⟨h, h', rfl⟩

/-- The bill's drift of -10 EUR is exported as -10 USD, and once more converted to -8.75 EUR. -/
theorem euros_exported_as_dollars : ∃ s es, Start s ∧
    Trace.Along (step .double) Outside s es ∧ ¬ Trace.Always (step .double) (Kept .double) s es := by
  refine ⟨⟨eurBill, []⟩, [.run Chargeback.allTime],
    start_ingested (by decide +kernel) (by decide +kernel), ⟨trivial, trivial⟩, fun h => ?_⟩
  have hlines : (Insights.ofRule (Chargeback.runStep .double Chargeback.allTime eurBill)
      "chargeback").map (fun r => (currencyOf r, (exportLine .double r).toOption.map
        fun line => (line.monthlyCostUsd, line.monthlyCostEur))) =
      [("EUR", some ("-10.00", "-8.75"))] := by decide +kernel
  cases hrows : Insights.ofRule (Chargeback.runStep .double Chargeback.allTime eurBill)
      "chargeback" with
  | nil => rw [hrows] at hlines; cases hlines
  | cons r rest =>
    rw [hrows, List.map_cons, List.cons.injEq, Prod.mk.injEq] at hlines
    obtain ⟨⟨heur, hline⟩, _⟩ := hlines
    have hr : r ∈ Insights.ofRule (Chargeback.runStep .double Chargeback.allTime eurBill)
        "chargeback" := by rw [hrows]; exact List.mem_cons_self
    obtain ⟨lines, hlines, hall⟩ := h.2.csv [r] (List.cons_subset.2 ⟨hr, List.nil_subset _⟩)
    have hall' := Loop.mapM_ok hlines
    cases hall' with
    | cons hexport _ =>
      cases hall with
      | cons hkept _ =>
        have husd := hkept.notUsd (by rw [heur]; decide)
        rw [hexport] at hline
        obtain ⟨hcost, _⟩ := Prod.mk.inj (Option.some.inj hline)
        rw [husd] at hcost
        exact absurd hcost (by decide)

instance (fp : Arith) (s : State) (e : Event) : Decidable (EmitsUsd fp s e) :=
  match e with
  | .elsewhere _ => inferInstanceAs (Decidable True)
  | .run env => inferInstanceAs (Decidable (∀ account ∈ Chargeback.accountIds env s.store,
    ∀ agg ∈ Chargeback.aggregatesOf env s.store account, _ ∧ _))

/-- A bill in dollars is kept. -/
theorem dollars_kept : Trace.Always (step .double) (Kept .double) ⟨Chargeback.billed [1], []⟩
    [.run Chargeback.allTime] :=
  have hout : Trace.Along (step .double) Outside ⟨Chargeback.billed [1], []⟩
      [.run Chargeback.allTime] := ⟨trivial, trivial⟩
  (kept_iff .double (start_ingested (by decide +kernel) (by decide +kernel)) hout).2
    (by decide +kernel)

end Currency

end Constat
