import Constat.ApiKeys
import Constat.Durability

/-!
# Access

How a request of the API reaches a tenant: the guard against X-Tenant-ID of `middleware.py`, the
routers in the order `main.py` includes them, the dependencies of `auth.py`, the session of `get_db`,
and the read attribution of `audit.py`. What an endpoint makes of the request is a parameter.

* `routes`               — every route, and `Endpoint.guard` who may take it.
* `admission`            — the endpoint of a request and who is calling, or the refusal.
* `recordRead`           — the api.read event, in a session of its own, whose failure is swallowed.
* `Handlers`             — what the endpoints do, once a request is admitted.
* `step`                 — the tenants after a request.
-/

namespace Constat

namespace Access

open ApiKeys (Principal Settings lastMatch)
open Endpoints (internalServerError)
open Idempotency (HttpException)
open Trace

/-! ## Principals -/

def anonymousPrincipal : Principal := ⟨"anonymous", .operator, defaultTenantId, .machine⟩

def kindText : ApiKeys.Kind → String
  | .machine => "machine"
  | .human => "human"

def auditActor (p : Principal) : String := kindText p.kind ++ ":" ++ p.name

/-- Whose tenant a session is bound to. -/
def optionalPrincipal (cfg : Settings) (key : Option String) : Except PyError Principal :=
  match key with
  | none => .ok anonymousPrincipal
  | some key =>
    if cfg.allApiKeyEntries.isEmpty then .ok anonymousPrincipal
    else (ApiKeys.matchPrincipal key cfg.allApiKeyEntries).map fun p => p.getD anonymousPrincipal

def verifyApiKey (cfg : Settings) (key : Option String) : Except HttpException Principal :=
  if cfg.allApiKeyEntries.isEmpty then .ok anonymousPrincipal
  else
    match key with
    | none => .error ⟨401, "X-API-Key header is required"⟩
    | some key =>
      match ApiKeys.matchPrincipal key cfg.allApiKeyEntries with
      | .error _ => .error internalServerError
      | .ok none => .error ⟨401, "invalid API key"⟩
      | .ok (some principal) => .ok principal

def requireOperator (cfg : Settings) (key : Option String) : Except HttpException Principal :=
  match verifyApiKey cfg key with
  | .error e => .error e
  | .ok principal =>
    if principal.role = .operator then .ok principal
    else .error ⟨403, "principal " ++ Py.reprStr principal.name ++
      " has role 'reader'; this endpoint requires 'operator'"⟩

/-! ## Routes -/

inductive Method where
  | get
  | post
  | patch
  | delete
deriving DecidableEq

inductive Segment where
  | lit (text : String)
  | param
deriving DecidableEq

inductive Endpoint where
  | health
  | insightHistory
  | listInsights
  | exportInsightsCsv
  | getInsight
  | createInsight
  | patchInsight
  | listInconclusive
  | getInconclusive
  | createInconclusive
  | patchInconclusive
  | listInsightRuns
  | triggerFocusIngest
  | getFocusCoverage
  | triggerAwsCollect
  | getCollectJob
  | triggerCleanupStuckRuns
  | importTargets
  | listTargets
  | deleteTarget
  | runInsights
  | getStatus
  | listAccounts
  | cleanupInconclusives
  | listAuditEvents
  | listPiiClassifications
  | listRetentionPolicies
  | triggerRetentionRun
deriving DecidableEq

structure Route where
  method : Method
  path : List Segment
  endpoint : Endpoint
deriving DecidableEq

/-- The routers in the order they are included; the history comes before `/insights/{insight_id}`. -/
def routes : List Route :=
  [⟨.get, [.lit "health"], .health⟩,
    ⟨.get, [.lit "insights", .lit "history"], .insightHistory⟩,
    ⟨.get, [.lit "insights"], .listInsights⟩,
    ⟨.get, [.lit "insights", .lit "export.csv"], .exportInsightsCsv⟩,
    ⟨.get, [.lit "insights", .param], .getInsight⟩,
    ⟨.post, [.lit "insights"], .createInsight⟩,
    ⟨.patch, [.lit "insights", .param], .patchInsight⟩,
    ⟨.get, [.lit "inconclusives"], .listInconclusive⟩,
    ⟨.get, [.lit "inconclusives", .param], .getInconclusive⟩,
    ⟨.post, [.lit "inconclusives"], .createInconclusive⟩,
    ⟨.patch, [.lit "inconclusives", .param], .patchInconclusive⟩,
    ⟨.get, [.lit "insight-runs"], .listInsightRuns⟩,
    ⟨.post, [.lit "collect", .lit "focus"], .triggerFocusIngest⟩,
    ⟨.get, [.lit "focus", .lit "coverage"], .getFocusCoverage⟩,
    ⟨.post, [.lit "collect", .lit "aws"], .triggerAwsCollect⟩,
    ⟨.get, [.lit "collect", .lit "aws", .lit "jobs", .param], .getCollectJob⟩,
    ⟨.post, [.lit "collect", .lit "aws", .lit "cleanup-stuck-runs"], .triggerCleanupStuckRuns⟩,
    ⟨.post, [.lit "collect", .lit "targets", .lit "import"], .importTargets⟩,
    ⟨.get, [.lit "collect", .lit "targets"], .listTargets⟩,
    ⟨.delete, [.lit "collect", .lit "targets", .param], .deleteTarget⟩,
    ⟨.post, [.lit "insights", .lit "run"], .runInsights⟩,
    ⟨.get, [.lit "status"], .getStatus⟩,
    ⟨.get, [.lit "accounts"], .listAccounts⟩,
    ⟨.post, [.lit "admin", .lit "cleanup-inconclusives"], .cleanupInconclusives⟩,
    ⟨.get, [.lit "compliance", .lit "audit-events"], .listAuditEvents⟩,
    ⟨.get, [.lit "compliance", .lit "pii-classifications"], .listPiiClassifications⟩,
    ⟨.get, [.lit "compliance", .lit "retention-policies"], .listRetentionPolicies⟩,
    ⟨.post, [.lit "compliance", .lit "retention", .lit "run"], .triggerRetentionRun⟩]

inductive Guard where
  | unguarded
  | anyKey
  | operator
deriving DecidableEq

/-- The dependency of the endpoint, or else that of its router. -/
def Endpoint.guard : Endpoint → Guard
  | .health => .unguarded
  | .createInsight | .patchInsight | .createInconclusive | .patchInconclusive
  | .triggerFocusIngest | .triggerAwsCollect | .triggerCleanupStuckRuns | .importTargets
  | .deleteTarget | .runInsights | .cleanupInconclusives | .listAuditEvents
  | .triggerRetentionRun => .operator
  | _ => .anyKey

def Segment.fits : Segment → String → Bool
  | .lit text, s => decide (s = text)
  | .param, s => decide (s ≠ "")

def fits : List Segment → List String → Bool
  | [], [] => true
  | segment :: path, s :: rest => segment.fits s && fits path rest
  | _, _ => false

/-- The first route that fits, or that no route has the method, or none the path. -/
def resolve (method : Method) (path : List String) : Except HttpException Route :=
  match routes.find? fun r => decide (r.method = method) && fits r.path path with
  | some route => .ok route
  | none =>
    if routes.any fun r => fits r.path path then .error ⟨405, "Method Not Allowed"⟩
    else .error ⟨404, "Not Found"⟩

/-! ## Requests -/

/-- `query` has the names of the parameters that were sent, `content` is what else the endpoint
reads, and `auditFails` what the database does to the session of the attribution. -/
structure Request (β : Type) where
  tenantHeader : Bool
  apiKey : Option String
  method : Method
  path : List String
  query : List String
  content : β
  auditFails : Bool

variable {β ρ : Type}

def tenantHeaderRefused : HttpException :=
  ⟨400, "tenant is resolved from the API key, not from the request: " ++
    "the X-Tenant-ID header is not accepted"⟩

def Guard.check (cfg : Settings) (key : Option String) :
    Guard → Except HttpException Principal
  | .unguarded => (optionalPrincipal cfg key).mapError fun _ => internalServerError
  | .anyKey => verifyApiKey cfg key
  | .operator => requireOperator cfg key

def admission (cfg : Settings) (r : Request β) : Except HttpException (Route × Principal) :=
  if r.tenantHeader then .error tenantHeaderRefused
  else
    match resolve r.method r.path with
    | .error e => .error e
    | .ok route => (route.endpoint.guard.check cfg r.apiKey).map fun principal => (route, principal)

/-! ## Read attribution -/

def piiForbiddenMetadataKeys : List String :=
  ["account_id", "aws_account_id", "arn", "db_instance_arn", "billing_account_id",
    "sub_account_id", "tag_value", "tag_values", "external_id", "iam_role_arn",
    "secret_access_key", "access_key_id", "api_key", "value"]

/-- `_validate_metadata`. -/
def validateMetadata (metadata : List (String × Json)) : Except PyError Unit :=
  match metadata.filter fun p => p.1 ∈ piiForbiddenMetadataKeys with
  | [] => .ok ()
  | bad => .error ⟨"ValueError", "audit metadata contains forbidden PII keys: " ++
      Idempotency.listText ((bad.map (·.1)).insertionSort (· ≤ ·)) ++
      ". Use a non-PII key (e.g. account_count, region_name, rule_name) " ++
      "or hash the value before passing it in."⟩

/-- What an endpoint passes to `record_read`; a filter is recorded as present or absent. -/
structure Attribution where
  targetType : String
  route : String
  filters : List String
deriving DecidableEq

def Endpoint.attribution : Endpoint → Option Attribution
  | .insightHistory => some ⟨"insight_events", "/insights/history", ["rule_name", "since", "event"]⟩
  | .listInsights =>
    some ⟨"insights", "/insights", ["rule_name", "severity", "account_id", "ack_status"]⟩
  | .exportInsightsCsv =>
    some ⟨"insights", "/insights/export.csv", ["rule_name", "severity", "account_id"]⟩
  | .getInsight => some ⟨"insight", "/insights/{insight_id}", []⟩
  | .listInconclusive =>
    some ⟨"inconclusives", "/inconclusives", ["rule_name", "account_id", "status"]⟩
  | .getInconclusive => some ⟨"inconclusive", "/inconclusives/{inconclusive_id}", []⟩
  | .getFocusCoverage => some ⟨"focus_coverage", "/focus/coverage", []⟩
  | .listTargets => some ⟨"collect_targets", "/collect/targets", []⟩
  | .getStatus => some ⟨"status", "/status", []⟩
  | .listAccounts => some ⟨"accounts", "/accounts", []⟩
  | _ => none

def readAction : String := "api.read"

def Attribution.metadata (a : Attribution) (query : List String) (rowCount : Nat) :
    List (String × Json) :=
  [("route", .str a.route), ("row_count", .int rowCount)] ++
    a.filters.map fun f => ("filter_" ++ f, .bool (decide (f ∈ query)))

def readEvent (t : Store) (principal : Principal) (a : Attribution) (query : List String)
    (rowCount : Nat) : AuditEventRow where
  id := t.auditEvents.next
  actor := auditActor principal
  action := readAction
  targetType := some a.targetType
  targetId := none
  metadata := a.metadata query rowCount

/-- The session of the attribution rolls back on any exception, and the read is served. -/
def recordRead (t : Store) (principal : Principal) (a : Attribution) (query : List String)
    (rowCount : Nat) (fails : Bool) : Store :=
  match validateMetadata (a.metadata query rowCount) with
  | .error _ => t
  | .ok () => if fails then t else applyWrite t (.auditEvent (readEvent t principal a query rowCount))

/-! ## Answers -/

def reads (t : Store) : List AuditEventRow :=
  t.auditEvents.rows.filter fun e => decide (e.action = readAction)

/-- What the endpoints do. A read has an answer and the number of its rows; a write leaves a store,
in which the events of the reads are the same: the table is immutable, and only `record_read` writes
that action. The idempotency cache and the in-process queue belong to no tenant and stay outside. -/
structure Handlers (β ρ : Type) where
  read : Endpoint → β → Store → Except HttpException (ρ × Nat)
  write : Endpoint → Principal → β → Store → Store × Except HttpException ρ
  silent : ∀ endpoint principal content t,
    reads (write endpoint principal content t).1 = reads t

abbrev Tenants := Uuid → Store

/-- The two sessions of a request are bound to the tenant of `optional_principal`. -/
def respond (cfg : Settings) (h : Handlers β ρ) (s : Tenants) (r : Request β) :
    Tenants × Except HttpException ρ :=
  match admission cfg r, optionalPrincipal cfg r.apiKey with
  | .error e, _ => (s, .error e)
  | .ok _, .error _ => (s, .error internalServerError)
  | .ok (route, principal), .ok bound =>
    let t := s bound.tenantId
    match route.method with
    | .get =>
      match h.read route.endpoint r.content t with
      | .error e => (s, .error e)
      | .ok (answer, rowCount) =>
        (route.endpoint.attribution.elim s fun a =>
          Function.update s bound.tenantId
            (recordRead t principal a r.query rowCount r.auditFails), .ok answer)
    | _ =>
      let out := h.write route.endpoint principal r.content t
      (Function.update s bound.tenantId out.1, out.2)

def step (cfg : Settings) (h : Handlers β ρ) (s : Tenants) (r : Request β) : Tenants :=
  (respond cfg h s r).1

end Access

end Constat
