import Constat.Lib.Dict
import Constat.Lib.Session
import Constat.Py.Json

/-!
# Orm

The rows of the database and the writes a session makes to them. A `Store` is what one tenant
sees of the database: row-level security filters every table by tenant, so the tenant column of a
row is the store the row is in.

A `Write` is one INSERT, UPDATE or DELETE as the journal of a session keeps it; `applyWrite` is
its effect. Times are microseconds since the epoch (UTC) and dates are proleptic Gregorian
ordinals, as `date.toordinal` counts them.
-/

namespace Constat

abbrev Uuid := Nat

/-- The text form of a UUID: 32 hex digits in groups of 8, 4, 4, 4 and 12. -/
def Uuid.text (id : Uuid) : String :=
  let digits := (List.range 32).reverse.map fun i => Nat.digitChar (id / 16 ^ i % 16)
  let group := fun from_ len => String.ofList ((digits.drop from_).take len)
  "-".intercalate [group 0 8, group 8 4, group 12 4, group 16 4, group 20 12]

/-- `DEFAULT_TENANT_ID`. -/
def defaultTenantId : Uuid := 1

/-- A point in time, in microseconds. `timedelta`s are differences of these. -/
abbrev Micros := Int

structure Date where
  ordinal : Int
deriving DecidableEq

/-- The tags of one billing row. -/
abbrev TagDict := Dict String String

inductive ValueState where
  | known
  | unknown
  | stale
  | error
deriving DecidableEq

inductive Severity where
  | info
  | warning
  | critical
deriving DecidableEq

/-- `running` is the only status that is not terminal. -/
inductive RunStatus where
  | running
  | success
  | failed
  | partialRun
deriving DecidableEq

inductive AckStatus where
  | acknowledged
  | inProgress
  | resolved
  | dismissed
deriving DecidableEq

inductive InconclusiveStatus where
  | opened
  | acknowledged
  | resolved
deriving DecidableEq

inductive EventKind where
  | appeared
  | resolved
deriving DecidableEq

/-! ## Rows -/

structure Account where
  id : Uuid
  externalId : String
  name : Option String
deriving DecidableEq

structure Resource where
  id : Uuid
  accountId : Uuid
  region : String
  resourceType : String
  nativeId : String
  firstSeenAt : Micros
  lastSeenAt : Micros
  retiredAt : Option Micros
deriving DecidableEq

structure ObservationRow where
  id : Uuid
  resourceId : Uuid
  source : String
  observedAt : Micros
  payload : Json
  sourceRunId : Option Uuid
deriving DecidableEq

structure FactRow where
  id : Uuid
  resourceId : Option Uuid
  accountId : Option Uuid
  namespaceName : String
  key : String
  value : Json
  valueState : ValueState
  source : String
  observedAt : Micros
  lastSourceRunId : Option Uuid
deriving DecidableEq

structure SourceRun where
  id : Uuid
  accountId : Uuid
  region : String
  resourceType : String
  source : String
  startedAt : Micros
  finishedAt : Option Micros
  status : RunStatus
  resourcesFound : Option Nat
  error : Option String
  jobId : Option Uuid
deriving DecidableEq

structure InsightRow where
  id : Uuid
  ruleName : String
  resourceId : Option Uuid
  accountId : Option Uuid
  severity : Severity
  title : String
  payload : List (String × Json)
  computedAt : Micros
  ackStatus : Option AckStatus
  ackAt : Option Micros
  ackBy : Option String
deriving DecidableEq

structure InsightEventRow where
  id : Uuid
  fingerprint : String
  ruleName : String
  resourceId : Option Uuid
  accountId : Option String
  title : String
  event : EventKind
  monthlyUsd : Option PyFloat
  insightRunId : Option Uuid
  occurredAt : Micros
deriving DecidableEq

structure InsightRunRow where
  id : Uuid
  ruleName : String
  startedAt : Micros
  finishedAt : Option Micros
  status : RunStatus
  resourcesScanned : Option Nat
  insightsEmitted : Option Nat
  error : Option String
deriving DecidableEq

structure InconclusiveRow where
  id : Uuid
  ruleName : String
  resourceId : Option Uuid
  accountId : Option Uuid
  missingFacts : List String
  reason : Option String
  computedAt : Micros
  owner : Option String
  dueDate : Option Date
  status : InconclusiveStatus
deriving DecidableEq

structure CollectJobRow where
  jobId : Uuid
  actor : String
  totalItems : Nat
  summary : List (String × Json)
deriving DecidableEq

/-- `tags` is the denormalised list of unique tag dicts; costs are NUMERIC(18,6). -/
structure FocusChargeRow where
  id : Nat
  accountId : Uuid
  periodStart : Date
  periodEnd : Date
  service : String
  serviceCanonical : Option String
  region : Option String
  pricingCategory : Option String
  billedCost : Rat
  amortizedCost : Rat
  resourceId : Option String
  subAccountId : Option String
  tags : List TagDict
  chargeCount : Nat
  billingCurrency : String
deriving DecidableEq

/-- One row per (focus charge, input row, key, value); costs are NUMERIC(20,6). -/
structure FocusChargeTagRow where
  id : Nat
  focusChargeId : Nat
  key : String
  value : String
  inputRowIndex : Nat
  billedCost : Rat
  amortizedCost : Rat
deriving DecidableEq

structure AuditEventRow where
  id : Uuid
  actor : String
  action : String
  targetType : Option String
  targetId : Option String
  metadata : List (String × Json)
deriving DecidableEq

structure PiiClassificationRow where
  id : Nat
  resourceType : String
  resourceId : String
  fieldName : String
  sensitivity : String
  valueHash : String
deriving DecidableEq

/-! ## The store of one tenant -/

structure Store where
  accounts : Table Account.id
  resources : Table Resource.id
  observations : Table ObservationRow.id
  facts : Table FactRow.id
  sourceRuns : Table SourceRun.id
  insights : Table InsightRow.id
  insightEvents : Table InsightEventRow.id
  insightRuns : Table InsightRunRow.id
  inconclusive : Table InconclusiveRow.id
  collectJobs : Table CollectJobRow.jobId
  focusCharges : Table FocusChargeRow.id
  focusChargeTags : Table FocusChargeTagRow.id
  auditEvents : Table AuditEventRow.id
  piiClassifications : Table PiiClassificationRow.id
deriving DecidableEq

namespace Store

def empty : Store where
  accounts := .empty
  resources := .empty
  observations := .empty
  facts := .empty
  sourceRuns := .empty
  insights := .empty
  insightEvents := .empty
  insightRuns := .empty
  inconclusive := .empty
  collectJobs := .empty
  focusCharges := .empty
  focusChargeTags := .empty
  auditEvents := .empty
  piiClassifications := .empty

end Store

/-! ## Writes -/

inductive Write where
  | account (r : Account)
  | resource (r : Resource)
  | observation (r : ObservationRow)
  | fact (r : FactRow)
  | sourceRun (r : SourceRun)
  | insight (r : InsightRow)
  | insightEvent (r : InsightEventRow)
  | insightRun (r : InsightRunRow)
  | inconclusive (r : InconclusiveRow)
  | collectJob (r : CollectJobRow)
  | focusCharge (r : FocusChargeRow)
  | focusChargeTag (r : FocusChargeTagRow)
  | auditEvent (r : AuditEventRow)
  | piiClassification (r : PiiClassificationRow)
  | deleteInsightsOf (ruleName : String)
  | deleteInconclusiveOf (ruleName : String)
  | deleteChargeTagsOf (focusChargeId : Nat)
deriving DecidableEq

def applyWrite (s : Store) : Write → Store
  | .account r => { s with accounts := s.accounts.put r }
  | .resource r => { s with resources := s.resources.put r }
  | .observation r => { s with observations := s.observations.put r }
  | .fact r => { s with facts := s.facts.put r }
  | .sourceRun r => { s with sourceRuns := s.sourceRuns.put r }
  | .insight r => { s with insights := s.insights.put r }
  | .insightEvent r => { s with insightEvents := s.insightEvents.put r }
  | .insightRun r => { s with insightRuns := s.insightRuns.put r }
  | .inconclusive r => { s with inconclusive := s.inconclusive.put r }
  | .collectJob r => { s with collectJobs := s.collectJobs.put r }
  | .focusCharge r => { s with focusCharges := s.focusCharges.put r }
  | .focusChargeTag r => { s with focusChargeTags := s.focusChargeTags.put r }
  | .auditEvent r => { s with auditEvents := s.auditEvents.put r }
  | .piiClassification r => { s with piiClassifications := s.piiClassifications.put r }
  | .deleteInsightsOf n => { s with insights := s.insights.deleteWhere (·.ruleName = n) }
  | .deleteInconclusiveOf n =>
    { s with inconclusive := s.inconclusive.deleteWhere (·.ruleName = n) }
  | .deleteChargeTagsOf i =>
    { s with focusChargeTags := s.focusChargeTags.deleteWhere (·.focusChargeId = i) }

abbrev DbSession := Session applyWrite

/-- What a statement raises when it hits a constraint, or when `scalar_one_or_none` finds more
than one row. -/
inductive DbError where
  | integrityError
  | multipleResultsFound
deriving DecidableEq

end Constat
