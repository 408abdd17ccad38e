import Constat.Collectors.Ec2
import Constat.Collectors.Rds
import Constat.Inventory
import Constat.Py.Hashlib

/-!
# Collector

`collect_target` of `collectors/aws.py`: for every region and every job of a target, start a source
run, upsert what the scan yields, finish the run and sweep the resources it proves gone; then
correlate the region's volumes with its snapshots and instances. One commit ends the call.

What AWS answers and what the clock reads is a `World`: for each region and job the items its scan
yields and how it ends. An exception other than botocore's two escapes the call, and its caller
closes the session without a commit; so an `.error` here has no session.

The functions take the way a run is started as a parameter. `collectTarget` is the code's, with
`SourceRuns.startRun`.
-/

namespace Constat

open Collectors

namespace Collector

/-! ## Jobs -/

/-- One (resource type, source) scan unit. Every job of the registry has both factories. -/
structure ScanJob where
  key : String
  resourceType : String
  source : String
  observation : Uuid → Raw → Micros → Observation
  facts : Uuid → Uuid → Raw → Micros → List Fact

def rds : ScanJob where
  key := "rds"
  resourceType := Rds.resourceType
  source := Rds.sourceName
  observation := Rds.dbToObservation
  facts := Rds.dbToFacts

def ec2Volume : ScanJob where
  key := "ec2_volume"
  resourceType := Ec2.volumeResourceType
  source := Ec2.sourceName
  observation := Ec2.volumeToObservation
  facts := Ec2.volumeToFacts

def ec2Snapshot : ScanJob where
  key := "ec2_snapshot"
  resourceType := Ec2.snapshotResourceType
  source := Ec2.sourceName
  observation := Ec2.snapshotToObservation
  facts := Ec2.snapshotToFacts

def ec2Instance : ScanJob where
  key := "ec2_instance"
  resourceType := Ec2.instanceResourceType
  source := Ec2.sourceName
  observation := Ec2.instanceToObservation
  facts := Ec2.instanceToFacts

def jobRegistry : List ScanJob := [rds, ec2Volume, ec2Snapshot, ec2Instance]

/-- `_native_id_for_job`. -/
def nativeIdForJob (jobKey : String) (raw : Raw) : Except PyError String :=
  if jobKey = "rds" then raw.text "DBInstanceArn"
  else if jobKey = "ec2_volume" then raw.text "VolumeId"
  else if jobKey = "ec2_snapshot" then raw.text "SnapshotId"
  else if jobKey = "ec2_instance" then raw.text "InstanceId"
  else .error ⟨"ValueError", "unknown job key: " ++ jobKey⟩

structure TargetAccount where
  awsAccountId : String
  roleArn : Option String
  externalId : Option String
  name : Option String
  regions : Option (List String)
  resourceTypes : Option (List String)

def unknownResourceType (rt : String) : PyError :=
  ⟨"ValueError", "unknown resource_type '" ++ rt ++ "' (known: " ++
    Py.str (.list (["ec2_instance", "ec2_snapshot", "ec2_volume", "rds"].map .str)) ++ ")"⟩

/-- The jobs of a target: all of them, or the ones it names. -/
def resolveJobs (target : TargetAccount) : Except PyError (List ScanJob) :=
  match target.resourceTypes with
  | none => .ok jobRegistry
  | some types => types.mapM fun rt =>
    match jobRegistry.find? fun job => job.key = rt with
    | some job => .ok job
    | none => .error (unknownResourceType rt)

/-! ## The world -/

structure ScannedItem where
  raw : Raw
  seenAt : Micros
  observedAt : Micros

inductive ScanEnd where
  | completed
  | clientError (code text : String)
  | botoCoreError (cls text : String)
  | raised (e : PyError)

/-- One job of one region: whether a run this session cannot see wins the scope, what the scan
yields, how it ends, and the times the code reads. -/
structure JobScript where
  contended : Bool
  startedAt : Micros
  items : List ScannedItem
  ending : ScanEnd
  finishedAt : Micros
  retiredAt : Micros

/-- `assumeRole` is what STS raises, if it does; the rest is by region and job, in order. -/
structure World where
  assumeRole : Option PyError
  job : Nat → Nat → JobScript
  correlatedAt : Nat → Micros

structure Options where
  dryRun : Bool
  force : Bool
  maxConsecutiveRegionErrors : Int
  jobId : Option Uuid

def defaultMaxConsecutiveRegionErrors : Int := 2

structure JobPlan where
  job : ScanJob
  script : JobScript

structure RegionPlan where
  region : String
  jobs : List JobPlan
  correlatedAt : Micros

/-! ## One job -/

abbrev StartRun :=
  DbSession → Scope → Bool → Option Uuid → Micros → Bool → DbSession × Option SourceRun

/-- What the jobs of a call share. -/
structure Call where
  accountId : Uuid
  dryRun : Bool
  force : Bool
  jobId : Option Uuid

def classifyError (code : String) : String :=
  let lowered := code.toList.map Char.toLower
  let has := fun (s : String) => Py.contains s.toList lowered
  if has "accessdenied" || has "unauthorized" || has "forbidden" then "AccessDenied"
  else if has "throttl" || has "limitexceeded" || has "toomanyrequests" then "Throttling"
  else if has "timeout" || has "timedout" then "Timeout"
  else "Unknown"

def errorText (code text : String) : String :=
  classifyError code ++ " (" ++ code ++ "): " ++ text

/-- The `region_error` of a scan; an exception of another class escapes. -/
def ScanEnd.regionError : ScanEnd → Except PyError (Option String)
  | .completed => .ok none
  | .clientError code text => .ok (some (errorText code text))
  | .botoCoreError cls text => .ok (some (errorText cls text))
  | .raised e => .error e

def raisedBy : DbError → PyError
  | .integrityError => ⟨"IntegrityError", "constraint violated"⟩
  | .multipleResultsFound =>
    ⟨"MultipleResultsFound", "Multiple rows were found when one or none was required"⟩

def scopeOf (call : Call) (region : String) (job : ScanJob) : Scope where
  accountId := call.accountId
  region := region
  resourceType := job.resourceType
  source := job.source

def naturalKey (call : Call) (region : String) (job : ScanJob) (nativeId : String) :
    Resources.NaturalKey where
  accountId := call.accountId
  region := region
  resourceType := job.resourceType
  nativeId := nativeId

/-- `fresh` is past every resource id drawn so far. -/
structure JobState where
  session : DbSession
  fresh : Uuid
  resources : Nat
  observations : Nat
  facts : Nat
  items : List Ec2.Item

def JobState.start (s : DbSession) (fresh : Uuid) : JobState := ⟨s, fresh, 0, 0, 0, []⟩

def JobState.upserted (st : JobState) (s : DbSession) (id : Uuid) (raw : Raw) : JobState where
  session := s
  fresh := max st.fresh (id + 1)
  resources := st.resources + 1
  observations := st.observations
  facts := st.facts
  items := st.items ++ [(id, raw)]

/-- The observation and the facts of one item; a dry run writes none. -/
def describeItem (call : Call) (job : ScanJob) (run : SourceRun) (st : JobState) (id : Uuid)
    (raw : Raw) (observedAt : Micros) : Except PyError JobState :=
  if call.dryRun then .ok st
  else
    let s := Observations.insertObservation st.session (job.observation id raw observedAt)
      (some run.id)
    match Facts.upsertFacts s (job.facts id call.accountId raw observedAt) (some run.id) with
    | .error e => .error (raisedBy e)
    | .ok (s, inserted, updated) => .ok { st with
        session := s
        observations := st.observations + 1
        facts := st.facts + (inserted + updated) }

def scanItem (call : Call) (region : String) (job : ScanJob) (run : SourceRun) (st : JobState)
    (item : ScannedItem) : Except PyError JobState :=
  let raw := tagRegion region item.raw
  match nativeIdForJob job.key raw with
  | .error e => .error e
  | .ok nativeId =>
    match Resources.upsertResource st.session (naturalKey call region job nativeId) item.seenAt
        st.fresh with
    | .error e => .error (raisedBy e)
    | .ok (s, r) => describeItem call job run (st.upserted s r.id raw) r.id raw item.observedAt

structure JobOutcome where
  state : JobState
  error : Option String

def lostScope : String := "scan already in progress"

/-- The `finally` block: finish the run, and sweep the scope after a completed scan. -/
def finishJob (call : Call) (region : String) (plan : JobPlan) (run : SourceRun) (st : JobState)
    (regionError : Option String) : JobOutcome :=
  let completed := regionError.isNone
  let s := SourceRuns.finishRun st.session run.id (SourceRuns.jobStatus completed regionError)
    (some st.resources) regionError plan.script.finishedAt
  let s := if completed && !call.dryRun then
    (Resources.retireStaleResources s (scopeOf call region plan.job) plan.script.retiredAt).1 else s
  ⟨{ st with session := s }, regionError⟩

/-- The job once its run is started. -/
def runScan (call : Call) (region : String) (plan : JobPlan) (run : SourceRun) (st : JobState) :
    Except PyError JobOutcome :=
  match plan.script.items.foldlM (scanItem call region plan.job run) st with
  | .error e => .error e
  | .ok st =>
    match plan.script.ending.regionError with
    | .error e => .error e
    | .ok regionError => .ok (finishJob call region plan run st regionError)

def runRegionJob (start : StartRun) (call : Call) (region : String) (s : DbSession) (fresh : Uuid)
    (plan : JobPlan) : Except PyError JobOutcome :=
  match start s (scopeOf call region plan.job) call.force call.jobId plan.script.startedAt
      plan.script.contended with
  | (s, none) => .ok ⟨.start s fresh, some lostScope⟩
  | (s, some run) => runScan call region plan run (.start s fresh)

/-! ## One region -/

structure CollectState where
  session : DbSession
  fresh : Uuid
  resourcesWritten : Nat
  observationsWritten : Nat
  factsWritten : Nat
  errors : List String
  regionsSkipped : List String
  consecutiveErrors : Nat

structure RegionState where
  collect : CollectState
  hadError : Bool
  itemsByJob : Dict String (List Ec2.Item)

/-- A job is present in `itemsByJob` only when it ran without error. -/
def addOutcome (region : String) (job : ScanJob) (rs : RegionState) (out : JobOutcome) :
    RegionState :=
  let c := rs.collect
  let counted : CollectState := { c with
    session := out.state.session
    fresh := out.state.fresh
    resourcesWritten := c.resourcesWritten + out.state.resources
    observationsWritten := c.observationsWritten + out.state.observations
    factsWritten := c.factsWritten + out.state.facts }
  match out.error with
  | some e =>
    { rs with
      collect := { counted with
        errors := c.errors ++ [region ++ " (" ++ job.key ++ "): " ++ e] }
      hadError := true }
  | none => { rs with collect := counted, itemsByJob := rs.itemsByJob.set job.key out.state.items }

def runJob (start : StartRun) (call : Call) (region : String) (rs : RegionState) (plan : JobPlan) :
    Except PyError RegionState :=
  match runRegionJob start call region rs.collect.session rs.collect.fresh plan with
  | .error e => .error e
  | .ok out => .ok (addOutcome region plan.job rs out)

/-- The facts of the correlation pass over the jobs of the region that succeeded. -/
def correlated (call : Call) (itemsByJob : Dict String (List Ec2.Item)) (now : Micros) :
    List Fact :=
  Ec2.correlationFacts (itemsByJob.get? "ec2_volume")
    ((itemsByJob.get? "ec2_snapshot").getD []) ((itemsByJob.get? "ec2_instance").getD [])
    call.accountId now

def correlate (call : Call) (now : Micros) (rs : RegionState) : Except PyError CollectState :=
  let c := rs.collect
  let corr := correlated call rs.itemsByJob now
  if call.dryRun || rs.itemsByJob.items.isEmpty || corr.isEmpty then .ok c
  else
    match Facts.upsertFacts c.session corr none with
    | .error e => .error (raisedBy e)
    | .ok (s, inserted, updated) => .ok { c with
        session := s
        factsWritten := c.factsWritten + (inserted + updated) }

def skipRegion (region : String) (max : Int) (c : CollectState) : CollectState :=
  { c with
    errors := c.errors ++ [region ++ ": skipped by circuit breaker (" ++
      toString c.consecutiveErrors ++ " consecutive errors >= " ++ toString max ++ ")"]
    regionsSkipped := c.regionsSkipped ++ [region] }

def collectRegion (start : StartRun) (call : Call) (max : Int) (c : CollectState)
    (plan : RegionPlan) : Except PyError CollectState :=
  if max ≤ c.consecutiveErrors then .ok (skipRegion plan.region max c)
  else
    match plan.jobs.foldlM (runJob start call plan.region) ⟨c, false, .empty⟩ with
    | .error e => .error e
    | .ok rs =>
      match correlate call plan.correlatedAt rs with
      | .error e => .error e
      | .ok c => .ok { c with
          consecutiveErrors := if rs.hadError then c.consecutiveErrors + 1 else 0 }

/-! ## The call -/

structure CollectionResult where
  awsAccountId : String
  regionsScanned : List String
  resourcesWritten : Nat
  observationsWritten : Nat
  factsWritten : Nat
  errors : List String
  regionsSkippedByBreaker : List String
deriving DecidableEq

/-- The refusal of a role without an external id, or what STS raises. -/
def assumeRole (target : TargetAccount) (world : World) : Except PyError Unit :=
  match target.roleArn with
  | none => .ok ()
  | some _ =>
    match target.externalId with
    | none | some "" => .error ⟨"ValueError", "TargetAccount " ++ target.awsAccountId ++
        ": role_arn is set but external_id is empty — refusing to assume a cross-account role " ++
        "without an ExternalId (confused-deputy risk)."⟩
    | some _ => world.assumeRole.elim (.ok ()) .error

def regionsOf (target : TargetAccount) : List String :=
  match target.regions with
  | none | some [] => defaultRegions
  | some regions => regions

def planOf (world : World) (jobs : List ScanJob) (regions : List String) : List RegionPlan :=
  regions.zipIdx.map fun (region, i) => {
    region := region
    jobs := jobs.zipIdx.map fun (job, j) => ⟨job, world.job i j⟩
    correlatedAt := world.correlatedAt i }

/-- `PIIClassifier.record` of a field that is confidential. -/
def recordPii (s : DbSession) (accountId fieldName value : String) : DbSession :=
  if value = "" then s
  else s.write (.piiClassification {
    id := s.working.piiClassifications.next
    resourceType := "account"
    resourceId := accountId
    fieldName := fieldName
    sensitivity := "confidential"
    valueHash := sha256 value })

def auditRow (s : Store) (target : TargetAccount) (options : Options) (regions : Nat)
    (c : CollectState) : AuditEventRow where
  id := s.auditEvents.next
  actor := "system:aws_collector"
  action := "aws_scan_completed"
  targetType := some "account"
  targetId := some target.awsAccountId
  metadata :=
    [("regions_scanned", .int regions),
      ("regions_skipped_by_breaker", .int c.regionsSkipped.length),
      ("resources_written", .int c.resourcesWritten),
      ("observations_written", .int c.observationsWritten),
      ("facts_written", .int c.factsWritten), ("errors_count", .int c.errors.length),
      ("force", .bool options.force), ("dry_run", .bool options.dryRun)]

/-- The classifications, the audit record and the commit. -/
def conclude (target : TargetAccount) (options : Options) (regions : Nat) (c : CollectState) :
    DbSession :=
  if options.dryRun then c.session
  else
    let s := recordPii c.session target.awsAccountId "aws_account_id" target.awsAccountId
    let s := recordPii s target.awsAccountId "arn" (target.roleArn.getD "")
    (s.write (.auditEvent (auditRow s.working target options regions c))).commit

def resultOf (target : TargetAccount) (c : CollectState) : CollectionResult where
  awsAccountId := target.awsAccountId
  regionsScanned := regionsOf target
  resourcesWritten := c.resourcesWritten
  observationsWritten := c.observationsWritten
  factsWritten := c.factsWritten
  errors := c.errors
  regionsSkippedByBreaker := c.regionsSkipped

def collectTargetWith (start : StartRun) (target : TargetAccount) (options : Options)
    (world : World) (s : DbSession) : Except PyError (DbSession × CollectionResult) :=
  match resolveJobs target, assumeRole target world with
  | .error e, _ => .error e
  | _, .error e => .error e
  | .ok jobs, .ok () =>
    match Accounts.getOrCreate s target.awsAccountId target.name with
    | .error e => .error (raisedBy e)
    | .ok (s, account) =>
      let call : Call := ⟨account.id, options.dryRun, options.force, options.jobId⟩
      match (planOf world jobs (regionsOf target)).foldlM
          (collectRegion start call options.maxConsecutiveRegionErrors)
          ⟨s, s.working.resources.next, 0, 0, 0, [], [], 0⟩ with
      | .error e => .error e
      | .ok c => .ok (conclude target options (regionsOf target).length c, resultOf target c)

def collectTarget (target : TargetAccount) (options : Options) (world : World) (s : DbSession) :
    Except PyError (DbSession × CollectionResult) :=
  collectTargetWith SourceRuns.startRun target options world s

/-- A call in a session of its own: what the store holds once the session is closed. -/
def collectStep (target : TargetAccount) (options : Options) (world : World) (store : Store) :
    Store :=
  match collectTarget target options world (Session.begin store) with
  | .error _ => store
  | .ok (s, _) => s.close

end Collector

end Constat
