import Constat.Cells
import Constat.Idempotency
import Constat.RunFailures

/-!
# Endpoints

The write endpoints of the API as `get_db` runs them: a request has a session of its own on the
store of its tenant, the endpoint works in it and answers, and closing the session discards what is
not committed. `routers/insights.py`, `routers/inconclusive.py`, `routers/runner.py` and
`POST /collect/aws`; the last two look an Idempotency-Key up first.

* `handle` — what an endpoint does to its session, and its answer.
* `serve`  — the same behind the cache of the responses.
* `step`   — the state of the API after a request, or after whatever another request does.
-/

namespace Constat

namespace Endpoints

open Idempotency (HttpException CollectRequest RunRequest listText unknownResourceTypes enqueueError)

inductive Response where
  | insight (row : InsightRow)
  | inconclusive (row : InconclusiveRow)
  | operated (response : Idempotency.Response)
deriving DecidableEq

abbrev Handled := DbSession × Except HttpException Response

def internalServerError : HttpException := ⟨500, "Internal Server Error"⟩

/-- What the database raises before anything is committed, a foreign key among it, ends in a 500. -/
def unlessRaised (raised : Option PyError) (s : DbSession) (rest : Handled) : Handled :=
  if raised.isSome then (s, .error internalServerError) else rest

/-! ## Insights -/

def ackStatuses : List (String × AckStatus) :=
  [("acknowledged", .acknowledged), ("in_progress", .inProgress), ("resolved", .resolved),
    ("dismissed", .dismissed)]

def workflowStatuses : List (String × InconclusiveStatus) :=
  [("open", .opened), ("acknowledged", .acknowledged), ("resolved", .resolved)]

def statusOf {α : Type} (statuses : List (String × α)) (text : String) : Option α :=
  (statuses.find? fun p => p.1 = text).map (·.2)

def invalidStatus {α : Type} (field text : String) (statuses : List (String × α)) :
    HttpException :=
  ⟨400, "invalid " ++ field ++ " " ++ Py.reprStr text ++ "; must be one of " ++
    listText ((statuses.map (·.1)).insertionSort (· ≤ ·))⟩

structure Settings where
  enableManualInsights : Bool

structure InsightIn where
  id : Option Uuid
  insight : Insight
  computedAt : Option Micros

/-- `\x7b**payload, "source": "manual"\x7d`. -/
def stamped (i : Insight) : Insight :=
  { i with payload := Table.putRow Prod.fst ("source", .str "manual") i.payload }

def createInsightEndpoint (cfg : Settings) (body : InsightIn) (now : Micros)
    (raised : Option PyError) (s : DbSession) : Handled :=
  if cfg.enableManualInsights then
    unlessRaised raised s <|
      let id := body.id.getD s.working.insights.next
      -- the primary key, and the check `insight_scope_present`
      if (s.working.insights.get? id).isSome ∨
          (body.insight.resourceId = none ∧ body.insight.accountId = none) then
        (s, .error internalServerError)
      else
        let row := { Insights.freshRow s.working (stamped body.insight)
          (body.computedAt.getD now) with id := id }
        ((s.write (.insight row)).commit, .ok (.insight row))
  else
    (s, .error ⟨403, "manual insight creation is disabled " ++
      "(set CONSTAT_ENABLE_MANUAL_INSIGHTS=1 to enable)"⟩)

structure AckIn where
  ackStatus : String
  ackBy : Option String

def patchInsightEndpoint (insightId : Uuid) (body : AckIn) (now : Micros)
    (raised : Option PyError) (s : DbSession) : Handled :=
  match statusOf ackStatuses body.ackStatus with
  | none => (s, .error (invalidStatus "ack_status" body.ackStatus ackStatuses))
  | some status =>
    unlessRaised raised s <|
      match Insights.updateAck s insightId status body.ackBy none now with
      | (s, none) => (s, .error ⟨404, "insight not found"⟩)
      | (s, some row) => (s, .ok (.insight row))

/-! ## Inconclusives -/

structure InconclusiveIn where
  id : Option Uuid
  record : Inconclusive
  computedAt : Option Micros
  owner : Option String
  dueDate : Option Date
  status : String

def InconclusiveIn.row (body : InconclusiveIn) (id : Uuid) (status : InconclusiveStatus)
    (now : Micros) : InconclusiveRow where
  id := id
  ruleName := body.record.ruleName
  resourceId := body.record.resourceId
  accountId := body.record.accountId
  missingFacts := body.record.missingFacts
  reason := body.record.reason
  computedAt := body.computedAt.getD now
  owner := body.owner
  dueDate := body.dueDate
  status := status

def createInconclusiveEndpoint (body : InconclusiveIn) (now : Micros) (raised : Option PyError)
    (s : DbSession) : Handled :=
  unlessRaised raised s <|
    let id := body.id.getD s.working.inconclusive.next
    match statusOf workflowStatuses body.status, s.working.inconclusive.get? id with
    | some status, none =>
      let row := body.row id status now
      (s.write (.inconclusive row), .ok (.inconclusive row))
    -- the check of the status, or the primary key
    | _, _ => (s, .error internalServerError)

/-- A field that was not sent is `none`, and one that was sent as null is `some none`. -/
structure WorkflowPatchIn where
  owner : Option (Option String)
  dueDate : Option (Option Date)
  status : Option (Option String)

def WorkflowPatchIn.fields (body : WorkflowPatchIn) : List String :=
  (if body.dueDate.isSome then ["due_date"] else []) ++
    (if body.owner.isSome then ["owner"] else []) ++
    (if body.status.isSome then ["status"] else [])

def WorkflowPatchIn.apply (body : WorkflowPatchIn) (status : Option InconclusiveStatus)
    (row : InconclusiveRow) : InconclusiveRow :=
  { row with
    owner := body.owner.getD row.owner
    dueDate := body.dueDate.getD row.dueDate
    status := status.getD row.status }

def workflowEvent (t : Store) (actor : String) (id : Uuid) (fields : List String) :
    AuditEventRow where
  id := t.auditEvents.next
  actor := actor
  action := "inconclusive_workflow"
  targetType := some "inconclusive"
  targetId := some (Uuid.text id)
  metadata := [("fields_updated", .list (fields.map .str))]

/-- `update_workflow`, the audit event and the commit. -/
def updateWorkflow (id : Uuid) (body : WorkflowPatchIn) (status : Option InconclusiveStatus)
    (actor : String) (s : DbSession) : Handled :=
  match s.working.inconclusive.get? id with
  | none => (s, .error ⟨404, "inconclusive not found"⟩)
  | some row =>
    let row := body.apply status row
    let s := s.write (.inconclusive row)
    ((s.write (.auditEvent (workflowEvent s.working actor id body.fields))).commit,
      .ok (.inconclusive row))

def patchInconclusiveEndpoint (id : Uuid) (body : WorkflowPatchIn) (actor : String)
    (raised : Option PyError) (s : DbSession) : Handled :=
  match body.status with
  | none => unlessRaised raised s (updateWorkflow id body none actor s)
  -- a null passes the check of the router and not that of the repository
  | some none => (s, .error internalServerError)
  | some (some text) =>
    match statusOf workflowStatuses text with
    | none => (s, .error (invalidStatus "status" text workflowStatuses))
    | some status => unlessRaised raised s (updateWorkflow id body (some status) actor s)

/-! ## Rule runs and collects -/

/-- A `ValueError` is the client's fault. -/
def raisedByRun (e : PyError) : HttpException :=
  if e.cls = "ValueError" then ⟨400, e.msg⟩ else internalServerError

def answer {α : Type} (response : α → Idempotency.Response) :
    Except PyError α → Except HttpException Response
  | .ok result => .ok (.operated (response result))
  | .error e => .error (raisedByRun e)

def runInsightsEndpoint (fp : Arith) (plan : RunFailures.Plan) (body : RunRequest)
    (s : DbSession) : Handled :=
  match (resourceRules fp).find? fun r => r.name = body.rule with
  | some rule =>
    let out := RunFailures.runResourceRuleUnder plan fp rule body.env s
    (out.1, answer (fun result => .runResult result "") out.2)
  | none =>
    if body.rule = "chargeback" then
      let out := RunFailures.runChargebackUnder plan fp body.chargeback s
      (out.1, answer (fun result => .runResult result.toRunResult result.periodLabel) out.2)
    else
      (s, .error ⟨400, "unknown rule: " ++ body.rule ++ " (V1 supports: " ++
        listText ((Idempotency.runners fp).insertionSort (· ≤ ·)) ++ ")"⟩)

def triggerAwsCollect (body : CollectRequest) (raised : Option PyError) (s : DbSession) :
    Handled :=
  let given := body.targets.getD []
  let targets := if given.isEmpty then body.persisted else given
  if targets.isEmpty then
    (s, .error ⟨422, "no targets in the request body and no persisted collect_targets " ++
      "— import them first via POST /collect/targets/import"⟩)
  else
    match unknownResourceTypes targets with
    | some unknown =>
      (s, .error ⟨422, "unknown resource_type(s) " ++ listText unknown ++ " (known: " ++
        listText ((Collector.jobRegistry.map (·.key)).insertionSort (· ≤ ·)) ++ ")"⟩)
    | none =>
      unlessRaised raised s <|
        let (s, job, items) :=
          CollectJobs.createAndEnqueueCollectJob s body.actor targets body.force body.dryRun
        match body.sendError with
        | some cause => (s, .error ⟨503, enqueueError job.jobId cause⟩)
        | none => (s, .ok (.operated (.collectAccepted job.jobId items.length)))

/-! ### With the session closed -/

/-- When nothing fails the two endpoints leave and answer what `operate` says. -/
theorem runInsightsEndpoint_clean (fp : Arith) (body : RunRequest) (t : Store) :
    let out := runInsightsEndpoint fp .clean body (.begin t)
    (out.1.close, out.2) = ((Idempotency.operate fp .insightsRun body t).1,
      (Idempotency.operate fp .insightsRun body t).2.map .operated) := by
  simp only [runInsightsEndpoint, Idempotency.operate, Idempotency.runInsightsEndpoint,
    RunFailures.runResourceRuleUnder_clean, RunFailures.runChargebackUnder_clean]
  cases (resourceRules fp).find? fun r => r.name = body.rule with
  | some rule => rfl
  | none =>
    by_cases hrule : body.rule = "chargeback"
    · simp only [hrule, if_true]
      rfl
    · simp only [hrule, if_false]
      rfl

theorem triggerAwsCollect_close (fp : Arith) (body : CollectRequest) (t : Store) :
    let out := triggerAwsCollect body none (.begin t)
    (out.1.close, out.2) = ((Idempotency.operate fp .collectAws body t).1,
      (Idempotency.operate fp .collectAws body t).2.map .operated) := by
  simp only [triggerAwsCollect, Idempotency.operate, Idempotency.triggerAwsCollect]
  generalize (if (body.targets.getD []).isEmpty then body.persisted else body.targets.getD []) =
    targets
  cases targets with
  | nil => rfl
  | cons target targets =>
    rw [List.isEmpty_cons, if_neg Bool.false_ne_true, if_neg Bool.false_ne_true]
    cases unknownResourceTypes (target :: targets) with
    | some unknown => rfl
    | none =>
      simp only [unlessRaised]
      cases body.sendError <;> rfl

/-! ## Requests -/

inductive Operation where
  | patchInsight (insightId : Uuid) (body : AckIn)
  | createInconclusive (body : InconclusiveIn)
  | patchInconclusive (id : Uuid) (body : WorkflowPatchIn)
  | createInsight (body : InsightIn)
  | runInsights (body : RunRequest) (plan : RunFailures.Plan)
  | triggerAwsCollect (body : CollectRequest)

/-- A request of an operator of a tenant. -/
structure Request where
  tenant : Uuid
  auditActor : String
  now : Micros
  idempotencyKey : Option String
  raised : Option PyError
  operation : Operation

def handle (fp : Arith) (cfg : Settings) (r : Request) (s : DbSession) : Handled :=
  match r.operation with
  | .patchInsight id body => patchInsightEndpoint id body r.now r.raised s
  | .createInconclusive body => createInconclusiveEndpoint body r.now r.raised s
  | .patchInconclusive id body => patchInconclusiveEndpoint id body r.auditActor r.raised s
  | .createInsight body => createInsightEndpoint cfg body r.now r.raised s
  | .runInsights body plan => runInsightsEndpoint fp plan body s
  | .triggerAwsCollect body => triggerAwsCollect body r.raised s

def Request.cacheKey (r : Request) : Option String :=
  match r.operation with
  | .runInsights _ _ =>
    (Focus.truthy r.idempotencyKey).map (Idempotency.makeCacheKey "insights_run")
  | .triggerAwsCollect _ =>
    (Focus.truthy r.idempotencyKey).map (Idempotency.makeCacheKey "collect_aws")
  | _ => none

abbrev Cache := IdempotencyCache Response

/-- A response that is cached is returned and the session is not used. -/
def serve (fp : Arith) (cfg : Settings) (cache : Cache) (r : Request) (t : Store) :
    Cache × Handled :=
  match r.cacheKey with
  | none => (cache, handle fp cfg r (.begin t))
  | some key =>
    match cache.get key r.now with
    | (cache, some body) => (cache, .begin t, .ok body)
    | (cache, none) =>
      let out := handle fp cfg r (.begin t)
      match out.2 with
      | .ok body => (cache.put key body r.now, out)
      | .error _ => (cache, out)

/-! ## The system -/

/-- Any other request: what it makes of the store of its tenant, and the cells it writes. -/
structure Other where
  act : Store → Store
  touches : Store → Cell → Prop
  frame : ∀ t c, ¬ touches t c → (act t).read c = t.read c

structure State where
  tenants : Uuid → Store
  cache : Cache

inductive Event where
  | write (r : Request)
  | other (tenant : Uuid) (o : Other)

/-- What the session of a request has come to when it is closed, and the answer. -/
def served (fp : Arith) (cfg : Settings) (s : State) (r : Request) : Handled :=
  (serve fp cfg s.cache r (s.tenants r.tenant)).2

def step (fp : Arith) (cfg : Settings) (s : State) : Event → State
  | .write r => {
    tenants := Function.update s.tenants r.tenant (served fp cfg s r).1.close
    cache := (serve fp cfg s.cache r (s.tenants r.tenant)).1 }
  | .other tenant o =>
    { s with tenants := Function.update s.tenants tenant (o.act (s.tenants tenant)) }

end Endpoints

end Constat
