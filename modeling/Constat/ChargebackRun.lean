import Constat.Focus.BuildInsights
import Constat.Focus.ReadBack
import Constat.RuleRun

/-!
# ChargebackRun

`run_chargeback` in `insights/runner.py`: the charges of every account that has some are read back,
aggregated and turned into insights, which replace those of the previous run. An account that
raises is recorded and skipped.

* `emittedFor`  — the insights an account yields.
* `ChargebackRows` — the insights a run leaves: the other rules' rows as they were, and one row per
                  emitted insight with the acknowledgement its stable id carries over.
-/

namespace Constat

open Session (WritesOnly)
open Runner

namespace Chargeback

/-- What a run reads beside the store. The accounts come out of a set, in any order. -/
structure Env where
  now : Micros
  periodLabel : String
  tagKey : Option String
  order : Focus.QueryOrder
  accounts : List Uuid → List Uuid
  accounts_perm : ∀ l, List.Perm (accounts l) l

structure RunResult extends Runner.RunResult where
  periodLabel : String

/-- The names of the accounts that have one, by id. -/
def accountNames (s : Store) : Dict String String :=
  s.accounts.rows.foldl (fun d a =>
    match Focus.truthy a.name with
    | some name => d.set (Uuid.text a.id) name
    | none => d) .empty

def accountIds (env : Env) (s : Store) : List Uuid :=
  env.accounts (s.focusCharges.rows.map (·.accountId)).dedup

/-- `if tag_key:`. -/
def aggregate (tagKey : Option String) (charges : List FocusCharge) :
    Except PyError (List Focus.AggregatedCost) :=
  match Focus.truthy tagKey with
  | some tagKey => Focus.aggregateByTag charges tagKey
  | none => .ok (Focus.aggregateByPeriod charges)

/-- The insights of one account. -/
def insightsOf (fp : Arith) (env : Env) (s : Store) (account : Uuid) :
    Except PyError (List Insight) :=
  let name := ((accountNames s).get? (Uuid.text account)).getD ""
  (aggregate env.tagKey (Focus.readCharges env.order s account name)).map
    (Focus.buildInsights fp env.periodLabel account)

structure LoopState where
  session : DbSession
  insightsEmitted : Nat
  errors : List String

def addAccount (fp : Arith) (env : Env) (st : LoopState) (account : Uuid) : LoopState :=
  match insightsOf fp env st.session.working account with
  | .error e => { st with errors := st.errors ++ ["account " ++ Uuid.text account ++ ": " ++ e.msg] }
  | .ok insights =>
    { session := insights.foldl (fun s i => Insights.insertInsight s i env.now) st.session
      insightsEmitted := st.insightsEmitted + insights.length
      errors := st.errors }

def addAccounts (fp : Arith) (env : Env) (s : DbSession) : LoopState :=
  (accountIds env s.working).foldl (addAccount fp env) ⟨s, 0, []⟩

def auditEvent (s : Store) (env : Env) (scanned emitted errors : Nat) : AuditEventRow where
  id := s.auditEvents.next
  actor := "system:insights_runner"
  action := "chargeback_run"
  targetType := some "rule"
  targetId := some "chargeback"
  metadata := [("accounts_scanned", .int scanned), ("insights_emitted", .int emitted),
    ("errors_count", .int errors), ("has_tag_key", .bool env.tagKey.isSome)]

def effectiveLabel (env : Env) : String :=
  match Focus.truthy env.tagKey with
  | some key => env.periodLabel ++ " tag_key=" ++ key
  | none => env.periodLabel

def runChargeback (fp : Arith) (env : Env) (s : DbSession) : DbSession × RunResult :=
  let run := newInsightRun s.working "chargeback" env.now
  let s := (s.write (.insightRun run)).commit
  let previous := InsightEvents.snapshotRule s.working "chargeback"
  let acks := Insights.snapshotAcks s.working "chargeback"
  let s := Insights.deleteInsightsForRule s "chargeback"
  let scanned := (accountIds env s.working).length
  let loop := addAccounts fp env s
  let s := loop.session.write
    (.insightRun (finishedRun run scanned loop.insightsEmitted loop.errors env.now))
  let s := Insights.applyAcksToRule s "chargeback" acks
  let s := InsightEvents.diffAndRecordEvents fp s "chargeback" previous run.id env.now
  let s := s.write
    (.auditEvent (auditEvent s.working env scanned loop.insightsEmitted loop.errors.length))
  (s.commit, {
    ruleName := "chargeback"
    resourcesScanned := scanned
    insightsEmitted := loop.insightsEmitted
    inconclusiveEmitted := 0
    errors := loop.errors
    periodLabel := effectiveLabel env })

/-! ## What a run emits -/

def emittedFor (fp : Arith) (env : Env) (s : Store) (account : Uuid) : List Insight :=
  match insightsOf fp env s account with
  | .error _ => []
  | .ok insights => insights

def emittedAll (fp : Arith) (env : Env) (s : Store) : List Insight :=
  (accountIds env s).flatMap (emittedFor fp env s)

theorem mem_readCharges {order : Focus.QueryOrder} {s : Store} {account : Uuid} {name : String}
    {c : FocusCharge} (h : c ∈ Focus.readCharges order s account name) :
    c.accountId = Uuid.text account := by
  obtain ⟨r, hr, rfl⟩ := List.mem_map.1 h
  have hmem := (order.charges_perm _).mem_iff.1 hr
  exact congrArg Uuid.text (of_decide_eq_true (List.mem_filter.1 hmem).2)

/-- The aggregates of one account's charges; none when they do not aggregate. -/
def aggregatesOf (env : Env) (t : Store) (account : Uuid) : List Focus.AggregatedCost :=
  match aggregate env.tagKey (Focus.readCharges env.order t account
      (((accountNames t).get? (Uuid.text account)).getD "")) with
  | .error _ => []
  | .ok aggs => aggs

theorem emittedFor_eq (fp : Arith) (env : Env) (t : Store) (account : Uuid) :
    emittedFor fp env t account =
      (aggregatesOf env t account).map (Focus.buildInsight fp env.periodLabel account) := by
  rw [emittedFor, insightsOf, aggregatesOf]
  cases aggregate env.tagKey (Focus.readCharges env.order t account
      (((accountNames t).get? (Uuid.text account)).getD "")) with
  | error e => rfl
  | ok aggs => rfl

theorem accountId_of_mem_aggregatesOf {env : Env} {t : Store} {account : Uuid}
    {agg : Focus.AggregatedCost} (h : agg ∈ aggregatesOf env t account) :
    agg.accountId = Uuid.text account := by
  unfold aggregatesOf at h
  cases hagg : aggregate env.tagKey (Focus.readCharges env.order t account
      (((accountNames t).get? (Uuid.text account)).getD "")) with
  | error e => rw [hagg] at h; cases h
  | ok aggs =>
    rw [hagg] at h
    unfold aggregate at hagg
    split at hagg
    · exact Focus.accountId_of_byTag (fun c hc => mem_readCharges hc) hagg h
    · cases hagg
      exact Focus.accountId_of_byPeriod (fun c hc => mem_readCharges hc) h

theorem mem_emittedAll {fp : Arith} {env : Env} {t : Store} {i : Insight} :
    i ∈ emittedAll fp env t ↔ ∃ account ∈ accountIds env t, ∃ agg ∈ aggregatesOf env t account,
      Focus.buildInsight fp env.periodLabel account agg = i := by
  simp [emittedAll, emittedFor_eq]

theorem ruleName_of_mem_emittedAll {fp : Arith} {env : Env} {s : Store} {i : Insight}
    (h : i ∈ emittedAll fp env s) : i.ruleName = "chargeback" := by
  obtain ⟨account, _, agg, _, rfl⟩ := mem_emittedAll.1 h
  rfl

/-- The tables the aggregation reads. -/
structure SameCharges (t t' : Store) : Prop where
  accounts : t'.accounts = t.accounts
  focusCharges : t'.focusCharges = t.focusCharges
  focusChargeTags : t'.focusChargeTags = t.focusChargeTags

theorem insightsOf_congr {t t' : Store} (h : SameCharges t t') (fp : Arith) (env : Env)
    (account : Uuid) : insightsOf fp env t' account = insightsOf fp env t account := by
  simp only [insightsOf, accountNames, Focus.readCharges, Focus.tagRowsOf, h.accounts,
    h.focusCharges, h.focusChargeTags]

theorem emittedAll_congr {t t' : Store} (h : SameCharges t t') (fp : Arith) (env : Env) :
    emittedAll fp env t' = emittedAll fp env t := by
  rw [emittedAll, emittedAll, accountIds, accountIds, h.focusCharges]
  exact List.flatMap_congr fun account _ => by
    rw [emittedFor, emittedFor, insightsOf_congr h]

theorem SameCharges.of_writesOnly {s s' : DbSession} (h : WritesOnly isOutput s s') :
    SameCharges s.working s'.working where
  accounts := h.frame Store.accounts fun w hw t => by cases w <;> first | rfl | cases hw
  focusCharges := h.frame Store.focusCharges fun w hw t => by cases w <;> first | rfl | cases hw
  focusChargeTags := h.frame Store.focusChargeTags
    fun w hw t => by cases w <;> first | rfl | cases hw

theorem addAccount_spec (fp : Arith) (env : Env) (st : LoopState) (account : Uuid) :
    WritesOnly isOutput st.session (addAccount fp env st account).session ∧
      Appended env.now st.session.working (addAccount fp env st account).session.working
        (emittedFor fp env st.session.working account) [] := by
  simp only [addAccount, emittedFor]
  cases insightsOf fp env st.session.working account with
  | error e => exact ⟨WritesOnly.refl _ _, Appended.refl _ _⟩
  | ok insights => exact insertAll_spec insights st.session env.now

/-- The loop appends what each account yields. -/
theorem addAccounts_spec (fp : Arith) (env : Env) (s : DbSession) :
    WritesOnly isOutput s (addAccounts fp env s).session ∧
      Appended env.now s.working (addAccounts fp env s).session.working
        (emittedAll fp env s.working) [] := by
  have hloop : ∀ (accounts : List Uuid) (st : LoopState), SameCharges s.working st.session.working →
      WritesOnly isOutput st.session (accounts.foldl (addAccount fp env) st).session ∧
        Appended env.now st.session.working
          (accounts.foldl (addAccount fp env) st).session.working
          (accounts.flatMap (emittedFor fp env s.working)) [] := by
    intro accounts
    induction accounts with
    | nil => exact fun st _ => ⟨WritesOnly.refl _ _, Appended.refl _ _⟩
    | cons account accounts ih =>
      intro st hsame
      obtain ⟨hw, hrows⟩ := addAccount_spec fp env st account
      have hemitted : emittedFor fp env st.session.working account =
          emittedFor fp env s.working account := by
        rw [emittedFor, emittedFor, insightsOf_congr hsame]
      rw [hemitted] at hrows
      have hkept := SameCharges.of_writesOnly hw
      obtain ⟨hw', hrows'⟩ := ih _ ⟨hkept.accounts.trans hsame.accounts,
        hkept.focusCharges.trans hsame.focusCharges,
        hkept.focusChargeTags.trans hsame.focusChargeTags⟩
      exact ⟨hw.trans hw', hrows.trans hrows'⟩
  exact hloop _ ⟨s, 0, []⟩ ⟨rfl, rfl, rfl⟩

/-- A fresh row with the acknowledgement its stable id carries over. -/
def ackedRow (t : Store) (r : InsightRow) : InsightRow :=
  (Insights.carried (Insights.snapshotAcks t "chargeback") r).getD r

/-- The insights a run leaves. -/
def ChargebackRows (fp : Arith) (env : Env) (t t' : Store) : Prop :=
  t'.insights.rows = (t.insights.rows.filter fun r => r.ruleName ≠ "chargeback") ++
    (insightRows t.insights.next (emittedAll fp env t) env.now).map (ackedRow t)

theorem runChargeback_effect (fp : Arith) (env : Env) (s : DbSession) :
    ChargebackRows fp env s.working (runChargeback fp env s).1.working ∧
      Logged fp "chargeback" s.working (runChargeback fp env s).1.working := by
  let run := newInsightRun s.working "chargeback" env.now
  let s₁ := (s.write (.insightRun run)).commit
  let s₂ := Insights.deleteInsightsForRule s₁ "chargeback"
  let loop := addAccounts fp env s₂
  let s₃ := loop.session.write (.insightRun
    (finishedRun run (accountIds env s₂.working).length loop.insightsEmitted loop.errors env.now))
  let s₄ := Insights.applyAcksToRule s₃ "chargeback" (Insights.snapshotAcks s₁.working "chargeback")
  obtain ⟨hloop, hrows⟩ := addAccounts_spec fp env s₂
  have hsame : SameCharges s.working s₂.working := ⟨rfl, rfl, rfl⟩
  rw [emittedAll_congr hsame] at hrows
  obtain ⟨hdiff, hlog⟩ := diffAndRecordEvents_spec fp s₄
    "chargeback" (InsightEvents.snapshotRule s₁.working "chargeback") run.id env.now
  have hlast : (runChargeback fp env s).1.working.insights = s₄.working.insights :=
    hdiff.frame Store.insights fun w hw t => by cases w <;> first | rfl | cases hw
  constructor
  · have hacked : s₄.working.insights.rows = _ :=
      rows_ofRule_rewrite (Insights.carried (Insights.snapshotAcks s₁.working "chargeback"))
        (fun r r' => carried_row) s₃ "chargeback"
    have hbefore : s₃.working.insights.rows =
        (s.working.insights.rows.filter fun r => r.ruleName ≠ "chargeback") ++
          insightRows s.working.insights.next (emittedAll fp env s.working) env.now :=
      hrows.insights.trans (congrArg (· ++ _) (filter_cleared _ InsightRow.ruleName "chargeback"))
    rw [ChargebackRows, hlast, hacked, hbefore, List.map_append]
    refine congrArg₂ (· ++ ·) ?_ ?_
    · refine (List.map_congr_left fun r hr => ?_).trans (List.map_id _)
      exact if_neg (of_decide_eq_true (List.mem_filter.1 hr).2)
    · refine List.map_congr_left fun r hr => ?_
      obtain ⟨p, hp, rfl⟩ := List.mem_map.1 hr
      exact if_pos (ruleName_of_mem_emittedAll (List.fst_mem_of_mem_zipIdx hp))
  · have hsnapshot : InsightEvents.snapshotRule s₄.working "chargeback" =
        InsightEvents.snapshotRule (runChargeback fp env s).1.working "chargeback" := by
      rw [InsightEvents.snapshotRule, InsightEvents.snapshotRule, Insights.ofRule, Insights.ofRule,
        hlast]
    have hacks : WritesOnly isOutput s₃ s₄ :=
      (writesOnly_insights _ _).mono isOutput_of_isInsight
    have hbefore : loop.session.working.insightEvents = s₂.working.insightEvents :=
      events_of_writesOnly hloop
    have hevents : s₄.working.insightEvents = s.working.insightEvents :=
      (events_of_writesOnly hacks).trans hbefore
    rw [hsnapshot, hevents] at hlog
    exact logged_of_extends hlog

end Chargeback

end Constat
