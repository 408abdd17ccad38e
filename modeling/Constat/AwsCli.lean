import Constat.CollectInvariants
import Constat.CollectJobs
import Constat.Lib.Related
import Constat.VolumeScan

/-!
# AwsCli

`cli/aws.py --targets` and `collect_targets` of `collectors/aws.py`: a list of targets collected in
one session, one after the other. A target whose role AWS refuses gives a result with the error and
the next target goes on; any other exception ends the run with exit code 2. Reading the file of the
targets is left out.

* `collectTarget_same`  — a collection does not look at the past of its session.
* `run_apart`           — so the one session does what a session for each target would do
                          (`apart`), and a refused target is as if it were not in the list.
-/

namespace Constat

open Collectors
open CollectJobs (Keeping Stable)
open ReplayFacts (ScanCall history)
open Session (Same Twin)

namespace Collector

/-! ## collect_targets -/

/-- A target and what the world answers; `errorCode` is the code of the refusal of its role, if it
has one, and "Unknown" without one. -/
structure TargetRun where
  target : TargetAccount
  world : World
  errorCode : String

/-- `except ClientError`: AssumeRole is the one call it reaches from, a scan's is in its region's
error. -/
def TargetRun.refusal (run : TargetRun) : Option PyError :=
  match resolveJobs run.target, assumeRole run.target run.world with
  | .ok _, .error e => if e.cls = "ClientError" then some e else none
  | _, _ => none

def refusedResult (run : TargetRun) (e : PyError) : CollectionResult where
  awsAccountId := run.target.awsAccountId
  regionsScanned := regionsOf run.target
  resourcesWritten := 0
  observationsWritten := 0
  factsWritten := 0
  errors := ["assume_role: " ++ run.errorCode ++ ": " ++ e.msg]
  regionsSkippedByBreaker := []

/-- The session after the targets before the first that raises, and their results. What the raising
target wrote is in the session and not committed, so it is left out. -/
def collectTargets (options : Options) :
    List TargetRun → DbSession → DbSession × Except PyError (List CollectionResult)
  | [], s => (s, .ok [])
  | run :: runs, s =>
    match run.refusal with
    | some e => (collectTargets options runs s).map id (Except.map (refusedResult run e :: ·))
    | none =>
      match collectTarget run.target options run.world s with
      | .error e => (s, .error e)
      | .ok (s, result) => (collectTargets options runs s).map id (Except.map (result :: ·))

/-- `run_aws_collect` of `main`, in a session of its own. -/
def runAwsCollect (options : Options) (runs : List TargetRun) (t : Store) :
    Store × Except PyError (List CollectionResult) :=
  (collectTargets options runs (Session.begin t)).map Session.close id

/-- The process exit code. -/
def exitCode : Except PyError (List CollectionResult) → Nat
  | .ok _ => 0
  | .error _ => 2

/-- What a session for each target would do. -/
def apart (options : Options) :
    List TargetRun → Store → Store × Except PyError (List CollectionResult)
  | [], t => (t, .ok [])
  | run :: runs, t =>
    match run.refusal with
    | some e => (apart options runs t).map id (Except.map (refusedResult run e :: ·))
    | none =>
      match collectTarget run.target options run.world (Session.begin t) with
      | .error e => (t, .error e)
      | .ok (s, result) => (apart options runs s.close).map id (Except.map (result :: ·))

/-! ## The past of a session -/

section

variable {s s' : DbSession}

/-- The same result, in the same session. -/
def SameReturn {α : Type} : DbSession × α → DbSession × α → Prop := Twin fun x s => (s, x)

theorem SameReturn.mk {α : Type} (h : Same s s') (x : α) : SameReturn (s, x) (s', x) :=
  ⟨x, s, s', h, rfl, rfl⟩

theorem getOrCreate_same (h : Same s s') (externalId : String) (name : Option String) :
    Related SameReturn (Accounts.getOrCreate s externalId name)
      (Accounts.getOrCreate s' externalId name) := by
  unfold Accounts.getOrCreate
  rw [h.working]
  cases Accounts.getByExternalId s'.working externalId with
  | error e => exact .error e
  | ok found =>
    cases found with
    | some account => exact .ok (.mk h account)
    | none => exact .ok (.mk (h.write _) _)

theorem upsertResource_same (h : Same s s') (key : Resources.NaturalKey) (now : Micros)
    (fresh : Uuid) : Related SameReturn (Resources.upsertResource s key now fresh)
      (Resources.upsertResource s' key now fresh) := by
  unfold Resources.upsertResource
  rw [h.working]
  cases scalarOneOrNone (s'.working.resources.rows.filter fun r => Resources.keyOf r = key) with
  | error e => exact .error e
  | ok found =>
    cases found with
    | some r => exact .ok (.mk (h.write _) _)
    | none => exact .ok (.mk (h.write _) _)

theorem upsertFacts_same (h : Same s s') (facts : List Fact) (run : Option Uuid) :
    Related SameReturn (Facts.upsertFacts s facts run) (Facts.upsertFacts s' facts run) := by
  unfold Facts.upsertFacts
  rw [h.working]
  cases facts.foldlM (Facts.addFact s'.working run) ⟨[], 0, 0⟩ with
  | error e => exact .error e
  | ok b =>
    by_cases hflush : Facts.flushable s'.working facts = true
    · simp only [hflush, if_true]
      exact .ok (.mk (h.writes _) _)
    · simp only [hflush]
      exact .error _

theorem startRun_same (h : Same s s') (scope : Scope) (force : Bool) (jobId : Option Uuid)
    (now : Micros) (contended : Bool) :
    SameReturn (SourceRuns.startRun s scope force jobId now contended)
      (SourceRuns.startRun s' scope force jobId now contended) := by
  have hopen : Same (if force then SourceRuns.abortActiveRun s scope now else s)
      (if force then SourceRuns.abortActiveRun s' scope now else s') := by
    cases force with
    | false => exact h
    | true =>
      simp only [if_true, SourceRuns.abortActiveRun]
      rw [h.working]
      exact h.writes _
  simp only [SourceRuns.startRun]
  revert hopen
  generalize (if force then SourceRuns.abortActiveRun s scope now else s) = u
  generalize (if force then SourceRuns.abortActiveRun s' scope now else s') = u'
  intro hopen
  rw [hopen.working]
  split
  · exact .mk (hopen.write _) _
  · exact .mk hopen.rollback _

theorem finishRun_same (h : Same s s') (run : Uuid) (status : RunStatus) (found : Option Nat)
    (error : Option String) (now : Micros) :
    Same (SourceRuns.finishRun s run status found error now)
      (SourceRuns.finishRun s' run status found error now) := by
  unfold SourceRuns.finishRun
  rw [h.working]
  cases s'.working.sourceRuns.get? run with
  | none => exact h
  | some r => exact h.write _

theorem retireStaleResources_same (h : Same s s') (scope : Scope) (now : Micros) :
    Same (Resources.retireStaleResources s scope now).1
      (Resources.retireStaleResources s' scope now).1 := by
  simp only [Resources.retireStaleResources]
  rw [h.working]
  exact h.writes _

/-! ## One job -/

def JobState.within (st : JobState) (s : DbSession) : JobState := { st with session := s }

def SameJob : JobState → JobState → Prop := Twin JobState.within

theorem SameJob.mk (h : Same s s') (st : JobState) : SameJob (st.within s) (st.within s') :=
  ⟨st, s, s', h, rfl, rfl⟩

def JobOutcome.within (out : JobOutcome) (s : DbSession) : JobOutcome :=
  { out with state := out.state.within s }

def SameOutcome : JobOutcome → JobOutcome → Prop := Twin JobOutcome.within

theorem describeItem_same (h : Same s s') (call : Call) (job : ScanJob) (run : SourceRun)
    (st : JobState) (id : Uuid) (raw : Raw) (observedAt : Micros) :
    Related SameJob (describeItem call job run (st.within s) id raw observedAt)
      (describeItem call job run (st.within s') id raw observedAt) := by
  unfold describeItem
  by_cases hdry : call.dryRun = true
  · simp only [hdry, if_true]
    exact .ok (.mk h st)
  · have hobserved : Same
        (Observations.insertObservation s (job.observation id raw observedAt) (some run.id))
        (Observations.insertObservation s' (job.observation id raw observedAt) (some run.id)) := by
      unfold Observations.insertObservation
      rw [h.working]
      exact h.write _
    simp only [hdry, JobState.within]
    obtain ⟨e, hb, hc⟩ | ⟨_, _, hb, hc, counts, u, u', hu, rfl, rfl⟩ :=
      upsertFacts_same hobserved (job.facts id call.accountId raw observedAt) (some run.id)
    · simp only [Bool.false_eq_true, if_false, hb, hc]
      exact .error _
    · simp only [Bool.false_eq_true, if_false, hb, hc]
      exact .ok (.mk hu { st with
        observations := st.observations + 1, facts := st.facts + (counts.1 + counts.2) })

theorem scanItem_same (h : Same s s') (call : Call) (region : String) (job : ScanJob)
    (run : SourceRun) (st : JobState) (item : ScannedItem) :
    Related SameJob (scanItem call region job run (st.within s) item)
      (scanItem call region job run (st.within s') item) := by
  simp only [scanItem]
  cases nativeIdForJob job.key (tagRegion region item.raw) with
  | error e => exact .error e
  | ok nativeId =>
    simp only [JobState.within]
    obtain ⟨e, hb, hc⟩ | ⟨_, _, hb, hc, r, u, u', hu, rfl, rfl⟩ :=
      upsertResource_same h (naturalKey call region job nativeId) item.seenAt st.fresh
    · simp only [hb, hc]
      exact .error _
    · simp only [hb, hc]
      exact describeItem_same hu call job run
        (st.upserted s r.id (tagRegion region item.raw)) r.id _ item.observedAt

theorem scanItems_same (call : Call) (region : String) (job : ScanJob) (run : SourceRun)
    (items : List ScannedItem) {st st' : JobState} (h : SameJob st st') :
    Related SameJob (items.foldlM (scanItem call region job run) st)
      (items.foldlM (scanItem call region job run) st') := by
  refine Related.foldlM ?_ items h
  rintro item _ _ ⟨st, s, s', h, rfl, rfl⟩
  exact scanItem_same h call region job run st item

theorem finishJob_same (h : Same s s') (call : Call) (region : String) (plan : JobPlan)
    (run : SourceRun) (st : JobState) (regionError : Option String) :
    SameOutcome (finishJob call region plan run (st.within s) regionError)
      (finishJob call region plan run (st.within s') regionError) := by
  have hfinished := finishRun_same h run.id
    (SourceRuns.jobStatus regionError.isNone regionError) (some st.resources) regionError
    plan.script.finishedAt
  simp only [finishJob, JobState.within]
  split
  · exact ⟨⟨st, regionError⟩, _, _, retireStaleResources_same hfinished _ _, rfl, rfl⟩
  · exact ⟨⟨st, regionError⟩, _, _, hfinished, rfl, rfl⟩

theorem runScan_same (call : Call) (region : String) (plan : JobPlan) (run : SourceRun)
    {st st' : JobState} (h : SameJob st st') :
    Related SameOutcome (runScan call region plan run st) (runScan call region plan run st') := by
  unfold runScan
  obtain ⟨e, hb, hc⟩ | ⟨_, _, hb, hc, st, u, u', hu, rfl, rfl⟩ :=
    scanItems_same call region plan.job run plan.script.items h
  · rw [hb, hc]
    exact .error _
  · rw [hb, hc]
    simp only
    cases plan.script.ending.regionError with
    | error e => exact .error e
    | ok regionError => exact .ok (finishJob_same hu call region plan run st regionError)

theorem runRegionJob_same (h : Same s s') (call : Call) (region : String) (fresh : Uuid)
    (plan : JobPlan) :
    Related SameOutcome (runRegionJob SourceRuns.startRun call region s fresh plan)
      (runRegionJob SourceRuns.startRun call region s' fresh plan) := by
  unfold runRegionJob
  obtain ⟨started, u, u', hu, hb, hc⟩ := startRun_same h (scopeOf call region plan.job) call.force
    call.jobId plan.script.startedAt plan.script.contended
  rw [hb, hc]
  cases started with
  | none => exact .ok ⟨⟨.start u fresh, some lostScope⟩, u, u', hu, rfl, rfl⟩
  | some run => exact runScan_same call region plan run ⟨.start u fresh, u, u', hu, rfl, rfl⟩

/-! ## One region -/

def CollectState.within (c : CollectState) (s : DbSession) : CollectState :=
  { c with session := s }

def RegionState.within (rs : RegionState) (s : DbSession) : RegionState :=
  { rs with collect := rs.collect.within s }

def SameCollect : CollectState → CollectState → Prop := Twin CollectState.within

def SameRegion : RegionState → RegionState → Prop := Twin RegionState.within

theorem addOutcome_within (region : String) (job : ScanJob) (rs : RegionState) (out : JobOutcome)
    (u : DbSession) :
    addOutcome region job (rs.within s) (out.within u) =
      (addOutcome region job rs out).within u := by
  obtain ⟨st, error⟩ := out
  cases error <;> rfl

theorem runJob_same (call : Call) (region : String) (plan : JobPlan) {rs rs' : RegionState}
    (h : SameRegion rs rs') :
    Related SameRegion (runJob SourceRuns.startRun call region rs plan)
      (runJob SourceRuns.startRun call region rs' plan) := by
  obtain ⟨rs, s, s', hs, rfl, rfl⟩ := h
  simp only [runJob, RegionState.within, CollectState.within]
  obtain ⟨e, hb, hc⟩ | ⟨_, _, hb, hc, out, u, u', hu, rfl, rfl⟩ :=
    runRegionJob_same hs call region rs.collect.fresh plan
  · simp only [hb, hc]
    exact .error _
  · simp only [hb, hc]
    refine .ok ⟨addOutcome region plan.job rs out, u, u', hu, ?_, ?_⟩
    · exact addOutcome_within region plan.job rs out u
    · exact addOutcome_within region plan.job rs out u'

/-- The correlation pass has nothing to write; only the items of the region decide that. -/
abbrev Idle (call : Call) (now : Micros) (rs : RegionState) : Prop :=
  (call.dryRun || rs.itemsByJob.items.isEmpty || (correlated call rs.itemsByJob now).isEmpty) = true

theorem correlate_same (call : Call) (now : Micros) {rs rs' : RegionState} (h : SameRegion rs rs') :
    Related SameCollect (correlate call now rs) (correlate call now rs') := by
  obtain ⟨rs, s, s', hs, rfl, rfl⟩ := h
  simp only [correlate]
  by_cases hidle : Idle call now (rs.within s)
  · have hidle' : Idle call now (rs.within s') := hidle
    rw [if_pos hidle, if_pos hidle']
    exact .ok ⟨rs.collect, s, s', hs, rfl, rfl⟩
  · have hidle' : ¬ Idle call now (rs.within s') := hidle
    rw [if_neg hidle, if_neg hidle']
    simp only [RegionState.within, CollectState.within]
    obtain ⟨e, hb, hc⟩ | ⟨_, _, hb, hc, counts, u, u', hu, rfl, rfl⟩ :=
      upsertFacts_same hs (correlated call rs.itemsByJob now) none
    · simp only [hb, hc]
      exact .error _
    · simp only [hb, hc]
      exact .ok ⟨{ rs.collect with
        factsWritten := rs.collect.factsWritten + (counts.1 + counts.2) }, u, u', hu, rfl, rfl⟩

theorem collectRegion_same (call : Call) (max : Int) (plan : RegionPlan) {c c' : CollectState}
    (h : SameCollect c c') :
    Related SameCollect (collectRegion SourceRuns.startRun call max c plan)
      (collectRegion SourceRuns.startRun call max c' plan) := by
  obtain ⟨c, s, s', hs, rfl, rfl⟩ := h
  simp only [collectRegion]
  by_cases hopen : max ≤ (c.within s).consecutiveErrors
  · have hopen' : max ≤ (c.within s').consecutiveErrors := hopen
    rw [if_pos hopen, if_pos hopen']
    exact .ok ⟨skipRegion plan.region max c, s, s', hs, rfl, rfl⟩
  · have hopen' : ¬ max ≤ (c.within s').consecutiveErrors := hopen
    rw [if_neg hopen, if_neg hopen']
    have hjobs := Related.foldlM (l := plan.jobs)
      (fun job _ _ hrs => runJob_same call plan.region job hrs)
      (⟨⟨c, false, .empty⟩, s, s', hs, rfl, rfl⟩ :
        SameRegion ⟨c.within s, false, .empty⟩ ⟨c.within s', false, .empty⟩)
    obtain ⟨e, hb, hc⟩ | ⟨_, _, hb, hc, rs, u, u', hu, rfl, rfl⟩ := hjobs
    · simp only [hb, hc]
      exact .error _
    · simp only [hb, hc]
      obtain ⟨e, hb, hc⟩ | ⟨_, _, hb, hc, c, v, v', hv, rfl, rfl⟩ :=
        correlate_same call plan.correlatedAt ⟨rs, u, u', hu, rfl, rfl⟩
      · simp only [hb, hc]
        exact .error _
      · simp only [hb, hc]
        exact .ok ⟨{ c with
          consecutiveErrors := if rs.hadError then c.consecutiveErrors + 1 else 0 },
          v, v', hv, rfl, rfl⟩

/-! ## The call -/

theorem recordPii_same (h : Same s s') (accountId fieldName value : String) :
    Same (recordPii s accountId fieldName value) (recordPii s' accountId fieldName value) := by
  unfold recordPii
  rw [h.working]
  split
  · exact h
  · exact h.write _

theorem conclude_same (h : Same s s') (target : TargetAccount) (options : Options) (regions : Nat)
    (c : CollectState) :
    Same (conclude target options regions (c.within s))
      (conclude target options regions (c.within s')) := by
  simp only [conclude, CollectState.within]
  split
  · exact h
  · have hpii := recordPii_same (recordPii_same h target.awsAccountId "aws_account_id"
      target.awsAccountId) target.awsAccountId "arn" (target.roleArn.getD "")
    rw [hpii.working]
    exact (hpii.write _).commit

/-- A collection does not look at the past of its session. -/
theorem collectTarget_same (h : Same s s') (target : TargetAccount) (options : Options)
    (world : World) :
    Related SameReturn (collectTarget target options world s)
      (collectTarget target options world s') := by
  unfold collectTarget collectTargetWith
  cases resolveJobs target with
  | error e => exact .error e
  | ok jobs =>
    cases assumeRole target world with
    | error e => exact .error e
    | ok _ =>
      simp only
      obtain ⟨e, hb, hc⟩ | ⟨_, _, hb, hc, account, u, u', hu, rfl, rfl⟩ :=
        getOrCreate_same h target.awsAccountId target.name
      · simp only [hb, hc]
        exact .error _
      · simp only [hb, hc]
        have hregions := Related.foldlM (l := planOf world jobs (regionsOf target))
          (fun plan _ _ hcollect => collectRegion_same
            ⟨account.id, options.dryRun, options.force, options.jobId⟩
            options.maxConsecutiveRegionErrors plan hcollect)
          (⟨⟨u, u.working.resources.next, 0, 0, 0, [], [], 0⟩, u, u', hu, rfl,
            by rw [hu.working]; rfl⟩ : SameCollect
              ⟨u, u.working.resources.next, 0, 0, 0, [], [], 0⟩
              ⟨u', u'.working.resources.next, 0, 0, 0, [], [], 0⟩)
        obtain ⟨e, hb, hc⟩ | ⟨_, _, hb, hc, c, v, v', hv, rfl, rfl⟩ := hregions
        · simp only [hb, hc]
          exact .error _
        · simp only [hb, hc]
          exact .ok (.mk (conclude_same hv target options _ c) _)

end

/-! ## The targets of a run -/

variable {options : Options}

theorem conclude_pending (hwet : options.dryRun = false) (target : TargetAccount) (regions : Nat)
    (c : CollectState) : (conclude target options regions c).pending = [] := by
  simp only [conclude, hwet]
  rfl

/-- A collection that is not dry leaves nothing pending. -/
theorem collectTarget_pending (hwet : options.dryRun = false) {target : TargetAccount}
    {world : World} {s s' : DbSession} {result : CollectionResult}
    (h : collectTarget target options world s = .ok (s', result)) : s'.pending = [] := by
  obtain ⟨_, _, _, c, _, _, _, _, hout⟩ := collectTargetWith_ok h
  rw [(Prod.mk.inj hout).1]
  exact conclude_pending hwet target _ c

theorem getOrCreate_committed {s s' : DbSession} {externalId : String} {name : Option String}
    {account : Account} (h : Accounts.getOrCreate s externalId name = .ok (s', account)) :
    s'.committed = s.committed := by
  simp only [Accounts.getOrCreate] at h
  split at h
  · cases h
  · cases h; rfl
  · cases h; rfl

/-- A dry collection commits nothing. -/
theorem collectTarget_dry (hdry : options.dryRun = true) {target : TargetAccount} {world : World}
    {s s' : DbSession} {result : CollectionResult}
    (h : collectTarget target options world s = .ok (s', result)) :
    s'.committed = s.committed := by
  obtain ⟨_, s₀, account, c, _, _, haccount, hregions, hout⟩ := collectTargetWith_ok h
  have hcommitted : s₀.committed = s.committed := getOrCreate_committed haccount
  have hkeeping : Keeping (fun _ => True) s.committed c := by
    refine Loop.keep (Keeping (fun _ => True) s.committed) ?_ ⟨hcommitted, fun _ => trivial⟩
      hregions
    intro plan _ b b' hb hstep
    have hany : Stable ⟨account.id, options.dryRun, options.force, options.jobId⟩ plan.region
        fun _ => True := ⟨fun _ _ => trivial, fun _ _ _ => trivial, fun _ _ => trivial⟩
    exact hany.collectRegion hb hstep
  rw [(Prod.mk.inj hout).1, conclude, if_pos hdry]
  exact hkeeping.committed

theorem collectTargets_dry (hdry : options.dryRun = true) (runs : List TargetRun) (s : DbSession) :
    (collectTargets options runs s).1.committed = s.committed := by
  induction runs generalizing s with
  | nil => rfl
  | cons run runs ih =>
    simp only [collectTargets]
    cases run.refusal with
    | some e => exact ih s
    | none =>
      cases hcollect : collectTarget run.target options run.world s with
      | error e => rfl
      | ok out => exact (ih out.1).trans (collectTarget_dry hdry hcollect)

/-- One session does what a session for each target would do. -/
theorem collectTargets_apart (hwet : options.dryRun = false) (runs : List TargetRun)
    {s : DbSession} (hs : s.pending = []) :
    (collectTargets options runs s).map Session.close id = apart options runs s.committed := by
  induction runs generalizing s with
  | nil => rfl
  | cons run runs ih =>
    simp only [collectTargets, apart]
    cases run.refusal with
    | some e =>
      simp only
      rw [← ih hs]
      rfl
    | none =>
      simp only
      obtain ⟨e, hb, hc⟩ | ⟨_, _, hb, hc, result, u, u', hu, rfl, rfl⟩ :=
        collectTarget_same (Same.reopened hs) run.target options run.world
      · rw [hb, hc]
        rfl
      · rw [hb, hc]
        simp only
        have hclose : u'.close = u.committed := hu.committed.symm
        rw [hclose, ← ih (collectTarget_pending hwet hb)]
        rfl

/-- A run in sessions apart is not stopped by a refused target, and leaves no trace of it. -/
theorem apart_filter (options : Options) (runs : List TargetRun) (t : Store) :
    (apart options runs t).1 = (apart options (runs.filter fun run => run.refusal.isNone) t).1 ∧
      exitCode (apart options runs t).2 =
        exitCode (apart options (runs.filter fun run => run.refusal.isNone) t).2 := by
  have hcode : ∀ (x : Except PyError (List CollectionResult)) (r : CollectionResult),
      exitCode (x.map (r :: ·)) = exitCode x := by
    intro x r
    cases x <;> rfl
  induction runs generalizing t with
  | nil => exact ⟨rfl, rfl⟩
  | cons run runs ih =>
    cases hrefusal : run.refusal with
    | some e =>
      rw [List.filter_cons_of_neg (by simp [hrefusal])]
      simp only [apart, hrefusal, Prod.map_fst, Prod.map_snd, id_eq, hcode]
      exact ih t
    | none =>
      rw [List.filter_cons_of_pos (by simp [hrefusal])]
      simp only [apart, hrefusal]
      cases collectTarget run.target options run.world (Session.begin t) with
      | error e => exact ⟨rfl, rfl⟩
      | ok out =>
        simp only [Prod.map_fst, Prod.map_snd, id_eq, hcode]
        exact ih out.1.close

/-- A run is a history of scans, so it keeps what every scan keeps. -/
theorem apart_history (options : Options) (runs : List TargetRun) (t : Store) :
    ∃ calls : List ScanCall, (apart options runs t).1 = history calls t := by
  induction runs generalizing t with
  | nil => exact ⟨[], rfl⟩
  | cons run runs ih =>
    simp only [apart]
    cases run.refusal with
    | some e => exact ih t
    | none =>
      cases hcollect : collectTarget run.target options run.world (Session.begin t) with
      | error e => exact ⟨[], rfl⟩
      | ok out =>
        obtain ⟨calls, hcalls⟩ := ih out.1.close
        refine ⟨⟨run.target, options, run.world⟩ :: calls, ?_⟩
        simp only [Prod.map_fst, id_eq, hcalls, history, List.foldl_cons, collectStep, hcollect]

/-- Each result is of its target. -/
theorem apart_accounts {options : Options} {runs : List TargetRun} {t : Store}
    {results : List CollectionResult} (h : (apart options runs t).2 = .ok results) :
    results.map (·.awsAccountId) = runs.map (·.target.awsAccountId) := by
  induction runs generalizing t results with
  | nil => cases h; rfl
  | cons run runs ih =>
    simp only [apart] at h
    cases hrefusal : run.refusal with
    | some e =>
      rw [hrefusal] at h
      simp only [Prod.map_snd] at h
      cases hrest : (apart options runs t).2 with
      | error e => rw [hrest] at h; cases h
      | ok rest =>
        rw [hrest] at h
        cases h
        rw [List.map_cons, List.map_cons, ih hrest]
        rfl
    | none =>
      rw [hrefusal] at h
      simp only at h
      cases hcollect : collectTarget run.target options run.world (Session.begin t) with
      | error e => rw [hcollect] at h; cases h
      | ok out =>
        rw [hcollect] at h
        simp only [Prod.map_snd] at h
        obtain ⟨_, _, _, c, _, _, _, _, hout⟩ := collectTargetWith_ok hcollect
        cases hrest : (apart options runs out.1.close).2 with
        | error e => rw [hrest] at h; cases h
        | ok rest =>
          rw [hrest] at h
          cases h
          rw [List.map_cons, List.map_cons, ih hrest, hout]
          rfl

/-- One session for all targets does what a session for each would do, and a refused target is as
if it were not in the list, but for its result: each target has one, in their order. -/
theorem run_apart (hwet : options.dryRun = false) (runs : List TargetRun) (t : Store) :
    runAwsCollect options runs t = apart options runs t ∧
      (runAwsCollect options runs t).1 =
        (runAwsCollect options (runs.filter fun run => run.refusal.isNone) t).1 ∧
      exitCode (runAwsCollect options runs t).2 =
        exitCode (runAwsCollect options (runs.filter fun run => run.refusal.isNone) t).2 ∧
      ∀ results, (runAwsCollect options runs t).2 = .ok results →
        results.map (·.awsAccountId) = runs.map (·.target.awsAccountId) := by
  have hrun : ∀ runs, runAwsCollect options runs t = apart options runs t :=
    fun runs => collectTargets_apart hwet runs rfl
  obtain ⟨hstore, hcode⟩ := apart_filter options runs t
  rw [hrun, hrun]
  exact ⟨rfl, hstore, hcode, fun _ hresults => apart_accounts hresults⟩

/-- AWS refuses the role of the first account; the second is scanned without one. -/
def refusedRun : TargetRun where
  target := { Runner.storageTarget with
    awsAccountId := "210987654321", roleArn := some "arn:aws:iam::210987654321:role/constat",
    externalId := some "constat" }
  world := { Runner.refusedScan with
    assumeRole := some ⟨"ClientError", "not authorized to perform sts:AssumeRole"⟩ }
  errorCode := "AccessDenied"

def storageRun : TargetRun :=
  ⟨Runner.storageTarget, Runner.snapshotScan History.tenthOfDecember .completed, "Unknown"⟩

theorem refused_role_apart :
    (runAwsCollect Runner.scanOptions [refusedRun, storageRun] .empty).1 =
        (runAwsCollect Runner.scanOptions [storageRun] .empty).1 ∧
      refusedRun.refusal.isSome = true := by
  obtain ⟨_, hstore, _, _⟩ := run_apart (show Runner.scanOptions.dryRun = false from rfl)
    [refusedRun, storageRun] .empty
  exact ⟨hstore, by decide⟩

/-- A dry run of any targets leaves the database as it was. -/
theorem dry_run_unchanged (hdry : options.dryRun = true) (runs : List TargetRun) (t : Store) :
    (runAwsCollect options runs t).1 = t := collectTargets_dry hdry runs (Session.begin t)

theorem dry_storage_unchanged :
    (runAwsCollect { Runner.scanOptions with dryRun := true } [refusedRun, storageRun]
      .empty).1 = .empty :=
  dry_run_unchanged rfl [refusedRun, storageRun] .empty

/-- Whatever a run is given, it keeps the inventory sound. -/
theorem run_sound (options : Options) (runs : List TargetRun) {t : Store} (h : Sound t) :
    Sound (runAwsCollect options runs t).1 := by
  cases hdry : options.dryRun with
  | true =>
    rw [show (runAwsCollect options runs t).1 = t from
      collectTargets_dry hdry runs (Session.begin t)]
    exact h
  | false =>
    obtain ⟨calls, hcalls⟩ := apart_history options runs t
    have hrun : runAwsCollect options runs t = apart options runs t :=
      collectTargets_apart hdry runs rfl
    rw [hrun, hcalls]
    exact kept_sound.history calls h

end Collector

end Constat
