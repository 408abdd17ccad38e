import Constat.Endpoints
import Constat.History
import Constat.Lib.Paging
import Mathlib.Data.Prod.Lex
import Mathlib.Data.String.Basic

/-!
# Listings

The list endpoints of `routers/insights.py`, `routers/inconclusive.py`, `routers/insight_history.py`
and `routers/accounts.py`, over the list functions of their repositories. Each selects rows, orders
them by a time (the inconclusives also by their rule), and returns one page. Rows with one time come
in the order the database likes, which may be another one for the next page.

* `Query`                — the rows a listing selects, and the key it orders them by.
* `Exact`                — whatever the orders, each selected row is on exactly one page.
* `listings_exact_iff`   — that is so iff no page ends between two rows with one key.
* `history_not_exact`    — the events of one rule run have one time, so a run that logs more of them
                           than a page has can lose one to a reader of the history.
-/

namespace Constat

namespace Listings

open Endpoints (statusOf ackStatuses workflowStatuses invalidStatus)
open Idempotency (HttpException listText)
open Paging (Served Straddled page)

/-- A listing: the rows it selects, and what it orders them by. -/
structure Query (α κ : Type) where
  rows : List α
  key : α → κ
  nodup : rows.Nodup

theorem nodup_selected {α : Type} {key : α → Nat} (t : Table key) (p : α → Bool) :
    (t.rows.filter p).Nodup := List.Nodup.of_map key (t.nodup_filter p)

/-- The two bounds that the API puts on `limit`. -/
structure PageLimit where
  value : Nat
  positive : 1 ≤ value
  bounded : value ≤ 500

def keep {β : Type} [DecidableEq β] (wanted : Option β) (value : β) : Bool :=
  wanted.elim true fun w => decide (value = w)

/-! ## Insights -/

structure InsightFilters where
  ruleName : Option String
  severity : Option Severity
  accountId : Option Uuid
  ackStatus : Option String

/-- `open` is not a status: it selects the insights that have none. -/
def invalidAckStatus (text : String) : HttpException :=
  ⟨400, "invalid ack_status " ++ Py.reprStr text ++ "; must be 'open' or one of " ++
    listText ((ackStatuses.map (·.1)).insertionSort (· ≤ ·))⟩

def ackFilter : Option String → Except HttpException (Option (Option AckStatus))
  | none => .ok none
  | some text =>
    if text = "open" then .ok (some none)
    else
      match statusOf ackStatuses text with
      | some status => .ok (some (some status))
      | none => .error (invalidAckStatus text)

def listInsights (t : Store) (f : InsightFilters) :
    Except HttpException (Query InsightRow Micros) :=
  (ackFilter f.ackStatus).map fun ack => {
    rows := t.insights.rows.filter fun r => keep f.ruleName r.ruleName &&
      keep f.severity r.severity && keep (f.accountId.map some) r.accountId && keep ack r.ackStatus
    key := fun r => -r.computedAt
    nodup := nodup_selected _ _ }

/-! ## Inconclusives -/

inductive InconclusiveSort where
  | computedAt
  | ruleName
deriving DecidableEq

def sorts : List (String × InconclusiveSort) :=
  [("computed_at", .computedAt), ("rule_name", .ruleName)]

structure InconclusiveFilters where
  ruleName : Option String
  accountId : Option Uuid
  status : Option String
  sort : String

/-- The status of a row that is selected, if only one status is. -/
def workflowFilter : Option String → Except HttpException (Option InconclusiveStatus)
  | none => .ok none
  | some text =>
    match statusOf workflowStatuses text with
    | some status => .ok (some status)
    | none => .error (invalidStatus "status" text workflowStatuses)

def sortBy (text : String) : Except HttpException InconclusiveSort :=
  match statusOf sorts text with
  | some sort => .ok sort
  | none => .error (invalidStatus "sort" text sorts)

def InconclusiveSort.key : InconclusiveSort → InconclusiveRow → Lex (String × Micros)
  | .computedAt, r => toLex ("", -r.computedAt)
  | .ruleName, r => toLex (r.ruleName, -r.computedAt)

def listInconclusive (t : Store) (f : InconclusiveFilters) :
    Except HttpException (Query InconclusiveRow (Lex (String × Micros))) :=
  match workflowFilter f.status, sortBy f.sort with
  | .error e, _ => .error e
  | .ok _, .error e => .error e
  | .ok status, .ok sort => .ok {
      rows := t.inconclusive.rows.filter fun r => keep f.ruleName r.ruleName &&
        keep (f.accountId.map some) r.accountId && keep status r.status
      key := sort.key
      nodup := nodup_selected _ _ }

/-! ## Events -/

def events : List (String × EventKind) := [("appeared", .appeared), ("resolved", .resolved)]

structure EventFilters where
  ruleName : Option String
  since : Option Micros
  event : Option String

def eventFilter : Option String → Except HttpException (Option EventKind)
  | none => .ok none
  | some text =>
    match statusOf events text with
    | some kind => .ok (some kind)
    | none => .error (invalidStatus "event" text events)

/-- `_filtered`. -/
def filtered (t : Store) (f : EventFilters) (kind : Option EventKind) : List InsightEventRow :=
  t.insightEvents.rows.filter fun e => keep f.ruleName e.ruleName &&
    f.since.elim true (fun since => decide (since ≤ e.occurredAt)) && keep kind e.event

def listEvents (t : Store) (f : EventFilters) :
    Except HttpException (Query InsightEventRow Micros) :=
  (eventFilter f.event).map fun kind => {
    rows := filtered t f kind
    key := fun e => -e.occurredAt
    nodup := nodup_selected _ _ }

/-! ## Accounts -/

/-- All accounts, the ones created last first. -/
def listAccounts (createdAt : Uuid → Micros) (t : Store) : Query Account Micros where
  rows := t.accounts.rows
  key := fun a => -createdAt a.id
  nodup := List.Nodup.of_map _ t.accounts.nodup

/-! ## Pages -/

/-- `limit` rows from `offset` on, in the order of the database. -/
def serve {α κ : Type} (query : Except HttpException (Query α κ)) (order : List α → List α)
    (limit offset : Nat) : Except HttpException (List α) :=
  query.map fun q => page limit offset (order q.rows)

/-- The rows of the first `n` pages. -/
def collect {α κ : Type} (query : Except HttpException (Query α κ)) (orders : Nat → List α → List α)
    (limit n : Nat) : Except HttpException (List α) :=
  ((List.range n).mapM fun k => serve query (orders k) limit (k * limit)).map List.flatten

/-- Whatever orders the database answers in, the first `n` pages have each selected row once. -/
def Exact {α κ : Type} [LinearOrder κ] (query : Except HttpException (Query α κ)) (q : Query α κ)
    (limit n : Nat) : Prop :=
  ∀ orders : Nat → List α → List α, (∀ k, Served q.key q.rows (orders k q.rows)) →
    ∃ got, collect query orders limit n = .ok got ∧ got.Perm q.rows

theorem collect_ok {α κ : Type} (q : Query α κ) (orders : Nat → List α → List α) (limit n : Nat) :
    collect (.ok q) orders limit n = .ok (Paging.pages limit (fun k => orders k q.rows) n) := by
  have hpages : ∀ ks : List Nat, ks.mapM (fun k => serve (.ok q) (orders k) limit (k * limit)) =
      .ok (ks.map fun k => page limit (k * limit) (orders k q.rows)) := by
    intro ks
    induction ks with
    | nil => rfl
    | cons k ks ih =>
      rw [List.mapM_cons, ih]
      rfl
  rw [collect, hpages, Except.map, Paging.pages, List.flatMap]

theorem exact_iff {α κ : Type} [LinearOrder κ] {query : Except HttpException (Query α κ)}
    {q : Query α κ} (hq : query = .ok q) (limit : PageLimit) {n : Nat}
    (hn : q.rows.length ≤ n * limit.value) :
    Exact query q limit.value n ↔ ¬ Straddled q.key q.rows limit.value := by
  subst hq
  rw [← Paging.pages_exact_iff q.nodup limit.positive hn]
  constructor
  · intro h out hout
    obtain ⟨got, hgot, hperm⟩ := h (fun k _ => out k) hout
    rw [collect_ok] at hgot
    cases hgot
    exact hperm
  · intro h orders horders
    exact ⟨_, collect_ok q orders limit.value n, h (fun k => orders k q.rows) horders⟩

/-- Every listing is exact iff no page of it ends between two rows with one key. -/
theorem listings_exact_iff (t : Store) (createdAt : Uuid → Micros) (limit : PageLimit) (n : Nat) :
    (∀ f q, listInsights t f = .ok q → q.rows.length ≤ n * limit.value →
      (Exact (listInsights t f) q limit.value n ↔ ¬ Straddled q.key q.rows limit.value)) ∧
    (∀ f q, listInconclusive t f = .ok q → q.rows.length ≤ n * limit.value →
      (Exact (listInconclusive t f) q limit.value n ↔ ¬ Straddled q.key q.rows limit.value)) ∧
    (∀ f q, listEvents t f = .ok q → q.rows.length ≤ n * limit.value →
      (Exact (listEvents t f) q limit.value n ↔ ¬ Straddled q.key q.rows limit.value)) ∧
    (t.accounts.rows.length ≤ n * limit.value →
      (Exact (.ok (listAccounts createdAt t)) (listAccounts createdAt t) limit.value n ↔
        ¬ Straddled (listAccounts createdAt t).key t.accounts.rows limit.value)) :=
  ⟨fun _ _ hq hn => exact_iff hq limit hn, fun _ _ hq hn => exact_iff hq limit hn,
    fun _ _ hq hn => exact_iff hq limit hn, fun hn => exact_iff rfl limit hn⟩

/-! ## The history after a run -/

section

open Runner

variable {fp : Arith} {rule : ResourceRule} {env : RunEnv} {t : Store}

theorem record_times (name : String) (run : Uuid) (now : Micros) (kind : EventKind)
    (ps : List (String × InsightRow)) : ∀ s : DbSession,
    ∀ e ∈ (ps.foldl (InsightEvents.record fp name run now kind) s).working.insightEvents.rows,
      e ∈ s.working.insightEvents.rows ∨ e.occurredAt = now := by
  induction ps with
  | nil => intro s e he; exact .inl he
  | cons p ps ih =>
    intro s e he
    rcases ih _ e he with hmem | htime
    · have hput : e = InsightEvents.eventOf fp s.working name p.1 p.2 kind run now ∨
          e ∈ s.working.insightEvents := (Table.mem_put_next rfl).1 hmem
      rcases hput with rfl | hold
      · exact .inr rfl
      · exact .inl hold
    · exact .inr htime

/-- What a run logs has the time of the run. -/
theorem ruleStep_times (fp : Arith) (rule : ResourceRule) (env : RunEnv) (t : Store) :
    ∀ e ∈ (ruleStep fp rule env t).insightEvents.rows,
      e ∈ t.insightEvents.rows ∨ e.occurredAt = env.now := by
  intro e he
  let s₁ := beginRun (.begin t) rule env
  let s₃ := Insights.applyAcksToRule (Reconcile.reconcileWithFocus fp
    (evaluateAll (clearOutput s₁ rule) rule env).session rule.name) rule.name
    (Insights.snapshotAcks s₁.working rule.name)
  have hevents : s₃.working.insightEvents = t.insightEvents :=
    events_of_writesOnly (rows_of_evaluation fp s₁ rule env).1
  have hlogged : e ∈ (InsightEvents.diffAndRecordEvents fp s₃ rule.name
      (InsightEvents.snapshotRule s₁.working rule.name) (newInsightRun t rule.name env.now).id
      env.now).working.insightEvents.rows := he
  rw [InsightEvents.diffAndRecordEvents] at hlogged
  rcases record_times _ _ _ _ _ _ e hlogged with hfirst | htime
  · rcases record_times _ _ _ _ _ _ e hfirst with hold | htime
    · rw [hevents] at hold
      exact .inl hold
    · exact .inr htime
  · exact .inr htime

/-- A run that logs more events than a page has, later than all events before it: some orders of the
database show a reader one of them twice, and another one never. -/
theorem history_not_exact (limit : PageLimit) (n : Nat) (f : EventFilters)
    (q : Query InsightEventRow Micros)
    (hfilters : keep f.ruleName rule.name = true ∧ f.since = none ∧ f.event = none)
    (hpast : ∀ e ∈ t.insightEvents, e.occurredAt < env.now)
    (hmany : t.insightEvents.rows.length + limit.value <
      (ruleStep fp rule env t).insightEvents.rows.length)
    (hq : listEvents (ruleStep fp rule env t) f = .ok q)
    (hn : q.rows.length ≤ n * limit.value) :
    ¬ Exact (listEvents (ruleStep fp rule env t) f) q limit.value n := by
  obtain ⟨hrule, hsince, hevent⟩ := hfilters
  have hlogged := (ruleStep_effect fp rule env t).logged
  have htimes := ruleStep_times fp rule env t
  generalize ruleStep fp rule env t = t' at *
  have hnodup : t'.insightEvents.rows.Nodup := List.Nodup.of_map _ t'.insightEvents.nodup
  rw [hlogged.events, List.nodup_append] at hnodup
  have hnew : ∀ e ∈ newEvents t t', e.occurredAt = env.now := by
    intro e he
    have hmem : e ∈ t'.insightEvents.rows := hlogged.events ▸ List.mem_append_right _ he
    rcases htimes e hmem with hold | hnow
    · exact absurd rfl (hnodup.2.2 e hold e he)
    · exact hnow
  have hquery : q.rows = filtered t' f none ∧ q.key = fun e => -e.occurredAt := by
    rw [listEvents, hevent] at hq
    cases hq
    exact ⟨rfl, rfl⟩
  have hselected : ∀ e ∈ newEvents t t', (keep f.ruleName e.ruleName &&
      f.since.elim true (fun since => decide (since ≤ e.occurredAt)) &&
      keep (none : Option EventKind) e.event) = true := by
    intro e he
    rw [hlogged.about e he, hrule, hsince]
    rfl
  have hsplit : q.rows = (t.insightEvents.rows.filter fun e => keep f.ruleName e.ruleName &&
      f.since.elim true (fun since => decide (since ≤ e.occurredAt)) &&
      keep (none : Option EventKind) e.event) ++ newEvents t t' := by
    rw [hquery.1, filtered, hlogged.events, List.filter_append, List.filter_eq_self.2 hselected]
  have hlength : limit.value < (newEvents t t').length := by
    have := congrArg List.length hlogged.events
    rw [List.length_append] at this
    omega
  rw [exact_iff hq limit hn, not_not]
  refine Paging.straddled_of_first limit.positive (x := -env.now) (fun e he => ?_) ?_
  · rw [hquery.2]
    have hmem : e ∈ t'.insightEvents.rows := by
      rw [hquery.1] at he
      exact List.mem_of_mem_filter he
    rcases htimes e hmem with hold | hnow
    · exact neg_le_neg (hpast e hold).le
    · show -env.now ≤ -e.occurredAt
      rw [hnow]
  · have hcount : (newEvents t t').countP (fun e => q.key e = -env.now) =
        (newEvents t t').length := by
      rw [List.countP_eq_length]
      intro e he
      rw [hquery.2, decide_eq_true_eq]
      exact congrArg _ (hnew e he)
    rw [hsplit, List.countP_append, hcount]
    omega

def invoicesDb : Raw :=
  [("DBInstanceArn", .str "arn:aws:rds:eu-west-1:123456789012:db:invoices"),
    ("Engine", .str "postgres"), ("EngineVersion", .str "14.9"),
    ("DBInstanceClass", .str "db.t3.medium")]

/-- Two instances with a gap each. -/
def twoDbs : Store :=
  History.step .double .empty (History.rdsScan History.tenthOfDecember [History.ordersDb, invoicesDb])

def firstRun : RunEnv :=
  ⟨History.tenthOfDecember + 3600 * Micros.second, Date.ofYmd 2026 12 10, some defaultScopeMaxAge⟩

def onePerPage : PageLimit := ⟨1, le_refl 1, by decide⟩

theorem two_events_on_two_pages : ∃ q,
    listEvents (ruleStep .double History.rdsEolRule firstRun twoDbs) ⟨none, none, none⟩ = .ok q ∧
    ¬ Exact (listEvents (ruleStep .double History.rdsEolRule firstRun twoDbs) ⟨none, none, none⟩) q
      1 2 :=
  ⟨_, rfl, history_not_exact onePerPage 2 ⟨none, none, none⟩ _ (by decide) (by decide +kernel)
    (by decide +kernel) rfl (by decide +kernel)⟩

end

end Listings

end Constat
