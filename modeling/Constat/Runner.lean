import Constat.Reconcile
import Constat.Rules.Registry
import Constat.SourceRuns

/-!
# Runner

`run_resource_rule` of `insights/runner.py`: one rule over all resources. A resource is evaluated
only when its scope is proven by a fresh successful source run; otherwise it is INCONCLUSIVE. The
rule's previous output is deleted, the fresh output inserted, and the difference of the two
recorded as lifecycle events, all in one transaction.

Every resource row of the store is evaluated: the query has no condition on `retired_at`.
-/

namespace Constat

namespace Runner

structure RunEnv where
  now : Micros
  today : Date
  scopeMaxAge : Option Micros

/-- 24 hours. -/
def defaultScopeMaxAge : Micros := Micros.day

structure RunResult where
  ruleName : String
  resourcesScanned : Nat
  insightsEmitted : Nat
  inconclusiveEmitted : Nat
  errors : List String
deriving DecidableEq

/-! ## Scope proof -/

def scopeOf (r : Resource) (source : String) : Scope where
  accountId := r.accountId
  region := r.region
  resourceType := r.resourceType
  source := source

def isScopeProven (s : Store) (r : Resource) (source : String) (maxAge : Option Micros)
    (now : Micros) : Bool :=
  (SourceRuns.latestSuccessfulRun s (scopeOf r source) maxAge now).isSome

/-- `str(timedelta)`. -/
def timedelta (t : Micros) : String :=
  let days := Int.fdiv t Micros.day
  let rest := (Int.fmod t Micros.day).toNat
  let secs := rest / 1000000
  let us := rest % 1000000
  let plural := if days.natAbs = 1 then " day, " else " days, "
  (if days = 0 then "" else toString days ++ plural) ++ toString (secs / 3600) ++ ":" ++
    zeroPad 2 (secs / 60 % 60) ++ ":" ++ zeroPad 2 (secs % 60) ++
    (if us = 0 then "" else "." ++ zeroPad 6 us)

def optTimedelta (t : Option Micros) : String := t.elim "None" timedelta

/-- The scope-level Inconclusive of a resource, `none` when its scope is proven. -/
def scopeInconclusive (s : Store) (r : Resource) (rule : ResourceRule) (env : RunEnv) :
    Option Inconclusive :=
  if isScopeProven s r rule.source env.scopeMaxAge env.now then none
  else
    let scope := "(" ++ r.region ++ ", " ++ r.resourceType ++ ")"
    match SourceRuns.latestSuccessfulRun s (scopeOf r rule.source) none env.now with
    | none => some {
        ruleName := rule.name
        resourceId := some r.id
        accountId := some r.accountId
        missingFacts := ["scope_not_proven"]
        reason := some ("no successful source_run for " ++ scope) }
    | some latest => some {
        ruleName := rule.name
        resourceId := some r.id
        accountId := some r.accountId
        missingFacts := ["scope_stale"]
        reason := some ("scope_stale: latest successful source_run for " ++ scope ++ " is " ++
          optTimedelta (latest.finishedAt.map fun t => env.now - t) ++
          " old, older than the freshness window " ++ optTimedelta env.scopeMaxAge) }

/-! ## One resource -/

def toFact (f : FactRow) : Fact where
  resourceId := f.resourceId
  accountId := f.accountId
  namespaceName := f.namespaceName
  key := f.key
  value := f.value
  valueState := f.valueState
  source := f.source
  observedAt := f.observedAt

/-- `ORDER BY namespace, key, observed_at DESC`. -/
def factBefore (a b : FactRow) : Bool :=
  a.namespaceName < b.namespaceName ∨ (a.namespaceName = b.namespaceName ∧
    (a.key < b.key ∨ (a.key = b.key ∧ b.observedAt ≤ a.observedAt)))

/-- The facts of one resource, in the order of the bulk query. -/
def factsOf (s : Store) (id : Uuid) : List Fact :=
  ((s.facts.rows.filter fun f => f.resourceId = some id).insertionSort (factBefore · ·)).map toFact

/-- Evaluate a single resource: its insights and its inconclusive records. -/
def evaluateResource (s : Store) (r : Resource) (rule : ResourceRule) (env : RunEnv)
    (facts : List Fact) : Except PyError (List Insight × List Inconclusive) :=
  match scopeInconclusive s r rule env with
  | some inc => .ok ([], [inc])
  | none =>
    if facts.isEmpty then
      .ok ([], [{
        ruleName := rule.name
        resourceId := some r.id
        accountId := some r.accountId
        missingFacts := ["<no facts>"]
        reason := some "no facts observed for this resource" }])
    else
      match rule.evaluate r.id facts env.today with
      | .error e => .error e
      | .ok result =>
        if result.isConclusive then .ok (result.insights, [])
        else .ok (result.insights, [{
          ruleName := rule.name
          resourceId := some r.id
          accountId := some r.accountId
          missingFacts := result.inconclusiveReasons
          reason := some "missing_facts" }])

/-! ## The run -/

structure LoopState where
  session : DbSession
  insightsEmitted : Nat
  inconclusiveEmitted : Nat
  errors : List String

/-- Evaluate one resource and insert what it yields; an exception is recorded and the loop goes
on. -/
def evaluateInto (rule : ResourceRule) (env : RunEnv) (facts : Uuid → List Fact) (st : LoopState)
    (r : Resource) : LoopState :=
  match evaluateResource st.session.working r rule env (facts r.id) with
  | .error e => { st with errors := st.errors ++ [Uuid.text r.id ++ ": " ++ e.msg] }
  | .ok (insights, inconclusive) =>
    let s := insights.foldl (fun s i => Insights.insertInsight s i env.now) st.session
    let s := inconclusive.foldl (fun s i => Insights.insertInconclusive s i env.now) s
    { session := s
      insightsEmitted := st.insightsEmitted + insights.length
      inconclusiveEmitted := st.inconclusiveEmitted + inconclusive.length
      errors := st.errors }

def newInsightRun (s : Store) (ruleName : String) (now : Micros) : InsightRunRow where
  id := s.insightRuns.next
  ruleName := ruleName
  startedAt := now
  finishedAt := none
  status := .running
  resourcesScanned := none
  insightsEmitted := none
  error := none

def finishedRun (run : InsightRunRow) (scanned emitted : Nat) (errors : List String)
    (now : Micros) : InsightRunRow :=
  { run with
    finishedAt := some now
    status := if errors.isEmpty then .success else .partialRun
    resourcesScanned := some scanned
    insightsEmitted := some emitted }

/-- The run row is committed first, so that a run that dies is on record. -/
def beginRun (s : DbSession) (rule : ResourceRule) (env : RunEnv) : DbSession :=
  (s.write (.insightRun (newInsightRun s.working rule.name env.now))).commit

def clearOutput (s : DbSession) (rule : ResourceRule) : DbSession :=
  Insights.deleteInconclusiveForRule (Insights.deleteInsightsForRule s rule.name) rule.name

/-- All resources, in the order the query returns them. -/
def evaluateAll (s : DbSession) (rule : ResourceRule) (env : RunEnv) : LoopState :=
  s.working.resources.rows.foldl (evaluateInto rule env (factsOf s.working)) ⟨s, 0, 0, []⟩

def runResourceRule (fp : Arith) (rule : ResourceRule) (env : RunEnv) (s : DbSession) :
    DbSession × RunResult :=
  let run := newInsightRun s.working rule.name env.now
  let s := beginRun s rule env
  let scanned := s.working.resources.rows.length
  let previous := InsightEvents.snapshotRule s.working rule.name
  let acks := Insights.snapshotAcks s.working rule.name
  let loop := evaluateAll (clearOutput s rule) rule env
  let s := Reconcile.reconcileWithFocus fp loop.session rule.name
  let s := Insights.applyAcksToRule s rule.name acks
  let s := InsightEvents.diffAndRecordEvents fp s rule.name previous run.id env.now
  let s := (s.write
    (.insightRun (finishedRun run scanned loop.insightsEmitted loop.errors env.now))).commit
  (s, {
    ruleName := rule.name
    resourcesScanned := scanned
    insightsEmitted := loop.insightsEmitted
    inconclusiveEmitted := loop.inconclusiveEmitted
    errors := loop.errors })

end Runner

end Constat
