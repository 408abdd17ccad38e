import Constat.CollectQueue
import Constat.LostStart

/-!
# CollectJobs

`repositories/collect_jobs.py`, the part of `routers/aws.py` that creates a job and its work items,
and the part of `worker.py` that collects one item. A job is complete when its source runs cover as
many scopes as it has items and none of them is running; a failed run counts.

* `processItem` — the collection of one item in a session of its own: all of its source runs are
                  committed together at its end, or none is.
* `JobsKept`    — what a collection leaves of the jobs: its own job's runs are all ended, the other
                  jobs' runs are as before (`processItem_kept`).
-/

namespace Constat

/-- `evaluation_status`, a column that the ORM does not map; NULL until an evaluation is claimed. -/
inductive EvaluationStatus where
  | running
  | success
  | failed
deriving DecidableEq

namespace CollectJobs

open Collector

/-- The runs written for a job. -/
def listRunsForJob (s : Store) (job : Uuid) : List SourceRun :=
  s.sourceRuns.rows.filter fun r => r.jobId = some job

/-- Every enqueued work item has produced its source runs. -/
def isJobComplete (s : Store) (job : Uuid) (totalItems : Nat) : Bool :=
  let runs := listRunsForJob s job
  if runs.any fun r => r.status = .running then false
  else totalItems ≤ (runs.map fun r => (r.accountId, r.region)).dedup.length

def getJob (s : Store) (job : Uuid) : Option CollectJobRow := s.collectJobs.get? job

/-! ## Creating a job -/

/-- `tuple(types) if types else None`. -/
def nonemptyList (types : Option (List String)) : Option (List String) :=
  types.bind fun l => if l = [] then none else some l

def workItems (job : Uuid) (targets : List TargetAccount) (force dryRun : Bool) : List WorkItem :=
  targets.flatMap fun t => (regionsOf t).map fun region => {
    jobId := job
    awsAccountId := t.awsAccountId
    region := region
    roleArn := t.roleArn
    externalId := t.externalId
    name := t.name
    resourceTypes := nonemptyList t.resourceTypes
    force := force
    dryRun := dryRun }

def regionCount (targets : List TargetAccount) : Nat := (targets.map fun t => (regionsOf t).length).sum

def resourceTypesOf (targets : List TargetAccount) : List String :=
  ((targets.flatMap fun t =>
    (nonemptyList t.resourceTypes).getD (jobRegistry.map (·.key))).dedup).insertionSort (· ≤ ·)

/-- `create_job`, with the summary of its caller. -/
def newJob (s : Store) (actor : String) (targets : List TargetAccount) : CollectJobRow where
  jobId := s.collectJobs.next
  actor := actor
  totalItems := regionCount targets
  summary := [("accounts", .int (targets.map (·.awsAccountId)).dedup.length),
    ("regions", .int (regionCount targets)),
    ("resource_types", .list ((resourceTypesOf targets).map .str))]

/-- The job row is committed, then its items are sent. -/
def createAndEnqueueCollectJob (s : DbSession) (actor : String) (targets : List TargetAccount)
    (force dryRun : Bool) : DbSession × CollectJobRow × List WorkItem :=
  let job := newJob s.working actor targets
  ((s.write (.collectJob job)).commit, job, workItems job.jobId targets force dryRun)

theorem workItems_length (job : Uuid) (targets : List TargetAccount) (force dryRun : Bool) :
    (workItems job targets force dryRun).length = regionCount targets := by
  simp [workItems, regionCount, List.length_flatMap]

theorem jobId_of_mem_workItems {job : Uuid} {targets : List TargetAccount} {force dryRun : Bool}
    {item : WorkItem} (h : item ∈ workItems job targets force dryRun) : item.jobId = job := by
  obtain ⟨t, _, h⟩ := List.mem_flatMap.1 h
  obtain ⟨region, _, rfl⟩ := List.mem_map.1 h
  rfl

theorem workItems_ne_nil {job : Uuid} {targets : List TargetAccount} {force dryRun : Bool}
    (h : targets ≠ []) : workItems job targets force dryRun ≠ [] := by
  cases targets with
  | nil => exact absurd rfl h
  | cons t targets =>
    have hregions : regionsOf t ≠ [] := by
      rcases hr : t.regions with _ | _ | ⟨region, regions⟩ <;>
        simp [regionsOf, hr, Collectors.defaultRegions]
    simp [workItems, hregions]

/-! ## Collecting an item -/

def targetOf (item : WorkItem) : TargetAccount where
  awsAccountId := item.awsAccountId
  roleArn := item.roleArn
  externalId := item.externalId
  name := item.name
  regions := some [item.region]
  resourceTypes := item.resourceTypes

def optionsOf (item : WorkItem) : Options where
  dryRun := item.dryRun
  force := item.force
  maxConsecutiveRegionErrors := defaultMaxConsecutiveRegionErrors
  jobId := some item.jobId

/-- `_process_item`: the errors of the collection, or what it raises; a raise rolls back. -/
def processItem (item : WorkItem) (world : World) (store : Store) :
    Store × Except PyError (List String) :=
  match collectTarget (targetOf item) (optionsOf item) world (.begin store) with
  | .error e => (store, .error e)
  | .ok (s, result) => (s.close, .ok result.errors)

/-! ### What a collection leaves of the jobs -/

/-- `u` is `t` after a part of the collection of an item of `job`. -/
structure JobsKept (job : Uuid) (t u : Store) : Prop where
  jobs : u.collectJobs = t.collectJobs
  ended : ∀ r ∈ u.sourceRuns, r.jobId ≠ none → r.status ≠ .running
  others : ∀ r, r.jobId ≠ none → r.jobId ≠ some job → (r ∈ u.sourceRuns ↔ r ∈ t.sourceRuns)

/-- No run of a job is running. -/
def Ended (t : Store) : Prop := ∀ r ∈ t.sourceRuns, r.jobId ≠ none → r.status ≠ .running

theorem JobsKept.refl {t : Store} (h : Ended t) (job : Uuid) : JobsKept job t t :=
  ⟨rfl, h, fun _ _ _ => Iff.rfl⟩

theorem JobsKept.of_eq {job : Uuid} {t u u' : Store} (h : JobsKept job t u)
    (hruns : u'.sourceRuns = u.sourceRuns) (hjobs : u'.collectJobs = u.collectJobs) :
    JobsKept job t u' := by
  refine ⟨hjobs.trans h.jobs, ?_, ?_⟩
  · rw [hruns]
    exact h.ended
  · rw [hruns]
    exact h.others

/-- The tables that say how far the jobs are. -/
structure SameJobs (u u' : Store) : Prop where
  accounts : u'.accounts = u.accounts
  sourceRuns : u'.sourceRuns = u.sourceRuns
  collectJobs : u'.collectJobs = u.collectJobs

theorem SameJobs.trans {u u' u'' : Store} (h : SameJobs u u') (h' : SameJobs u' u'') :
    SameJobs u u'' :=
  ⟨h'.accounts.trans h.accounts, h'.sourceRuns.trans h.sourceRuns,
    h'.collectJobs.trans h.collectJobs⟩

/-- The writes of a scan and of the end of a collection. -/
def isRecord : Write → Bool
  | .account _ | .sourceRun _ | .collectJob _ => false
  | _ => true

theorem isRecord_of_isScanWrite (w : Write) (h : isScanWrite w = true) : isRecord w = true := by
  cases w <;> first | rfl | cases h

theorem SameJobs.of_writesOnly {s s' : DbSession} (h : Session.WritesOnly isRecord s s') :
    SameJobs s.working s'.working where
  accounts := h.frame Store.accounts fun w hw t => by cases w <;> first | rfl | cases hw
  sourceRuns := h.frame Store.sourceRuns fun w hw t => by cases w <;> first | rfl | cases hw
  collectJobs := h.frame Store.collectJobs fun w hw t => by cases w <;> first | rfl | cases hw

/-- The run of a region's job, started and then ended: it has the job and the scope of the call. -/
structure RunOf (call : Call) (region : String) (u : Store) (run done : SourceRun) : Prop where
  account : (u.accounts.get? call.accountId).isSome
  started : run.id = u.sourceRuns.next
  same : done.id = run.id
  ended : done.status ≠ .running
  jobId : done.jobId = call.jobId
  accountId : done.accountId = call.accountId
  region : done.region = region

/-- The store with the running run of a scope aborted. -/
def abortedStore (u : Store) (scope : Scope) (now : Micros) : Store :=
  { u with sourceRuns :=
      u.sourceRuns.putAll ((SourceRuns.activeRuns u scope).map (SourceRuns.aborted now)) }

/-- What the job of a region leaves: its start was lost and the session is back at what it has
committed, or its run is started and ended in the session, perhaps after an abort. -/
theorem runRegionJob_cases {call : Call} {region : String} {s : DbSession} {fresh : Uuid}
    {plan : JobPlan} {out : JobOutcome}
    (h : runRegionJob SourceRuns.startRun call region s fresh plan = .ok out) :
    out.state.session.committed = s.committed ∧
      ((out.state.session.working = s.committed ∧ out.error.isSome = true) ∨
        ∃ u run done, (u = s.working ∨ ∃ scope now, u = abortedStore s.working scope now) ∧
          RunOf call region u run done ∧
          SameJobs { u with sourceRuns := (u.sourceRuns.put run).put done }
            out.state.session.working) := by
  obtain ⟨s', hs', hcommitted, hu⟩ : ∃ s', (if call.force then
      SourceRuns.abortActiveRun s (scopeOf call region plan.job) plan.script.startedAt else s) = s' ∧
      s'.committed = s.committed ∧
      (s'.working = s.working ∨ ∃ scope now, s'.working = abortedStore s.working scope now) := by
    refine ⟨_, rfl, ?_⟩
    split
    · exact ⟨Session.writes_committed _ _, .inr ⟨_, _, SourceRuns.abortActiveRun_working _ _ _⟩⟩
    · exact ⟨rfl, .inl rfl⟩
  simp only [runRegionJob, SourceRuns.startRun, hs'] at h
  split at h
  · rename_i s₀ hstart
    split at hstart
    · cases hstart
    · cases hstart
      cases h
      exact ⟨hcommitted, .inl ⟨hcommitted, rfl⟩⟩
  · rename_i s₀ run hstart
    split at hstart
    · rename_i hinsertable
      cases hstart
      obtain ⟨s₁, status, count, error, hstatus, hscan, hsweep, _⟩ :=
        runScan_writes (get?_startedRun s' _) h
      let run := SourceRuns.newRun s'.working (scopeOf call region plan.job) call.jobId
        plan.script.startedAt
      let done := SourceRuns.finished run status count error plan.script.finishedAt
      have haccount : (s'.working.accounts.get? call.accountId).isSome := by
        rw [Bool.and_eq_true] at hinsertable
        exact ((SourceRuns.insertable_iff _ _).1 hinsertable.1).1
      have hscanned := SameJobs.of_writesOnly (hscan.writesOnly.mono isRecord_of_isScanWrite)
      have hswept := SameJobs.of_writesOnly (hsweep.writesOnly.mono isRecord_of_isScanWrite)
      refine ⟨?_, .inr ⟨s'.working, run, done, hu, ⟨haccount, rfl, rfl, hstatus, rfl, rfl, rfl⟩,
        ?_, ?_, ?_⟩⟩
      · rw [hsweep.writesOnly.committed, Session.write_committed, hscan.writesOnly.committed]
        exact hcommitted
      · exact hswept.accounts.trans hscanned.accounts
      · exact hswept.sourceRuns.trans (congrArg (Table.put · done) hscanned.sourceRuns)
      · exact hswept.collectJobs.trans hscanned.collectJobs
    · cases hstart

/-- A property of the store that a collection keeps: it is about the accounts, the runs and the jobs
only, and holds after an abort and after a run of the call. -/
structure Stable (call : Call) (region : String) (I : Store → Prop) : Prop where
  congr : ∀ {u u'}, I u → SameJobs u u' → I u'
  abort : ∀ {u} scope now, I u → I (abortedStore u scope now)
  ran : ∀ {u run done}, I u → RunOf call region u run done →
    I { u with sourceRuns := (u.sourceRuns.put run).put done }

section

variable {call : Call} {region : String} {I : Store → Prop}

theorem Stable.runRegionJob (hI : Stable call region I) {s : DbSession} {fresh : Uuid}
    {plan : JobPlan} {out : JobOutcome} (hs : I s.working)
    (h : runRegionJob SourceRuns.startRun call region s fresh plan = .ok out) :
    I out.state.session.working ∨
      (out.state.session.working = s.committed ∧ out.error.isSome = true) := by
  obtain ⟨_, hlost | ⟨u, run, done, hu, hrun, hsame⟩⟩ := runRegionJob_cases h
  · exact .inr hlost
  · have hIu : I u := by
      rcases hu with rfl | ⟨scope, now, rfl⟩
      · exact hs
      · exact hI.abort scope now hs
    exact .inl (hI.congr (hI.ran hIu hrun) hsame)

/-- A collection so far: nothing is committed, and the session sees the property, unless a job has
failed and the property did not hold at the start. -/
structure Keeping (I : Store → Prop) (t : Store) (c : CollectState) : Prop where
  committed : c.session.committed = t
  working : c.errors = [] ∨ I t → I c.session.working

variable {t : Store}

theorem addOutcome_errors_nil {plan : JobPlan} {rs : RegionState} {out : JobOutcome}
    (h : (addOutcome region plan.job rs out).collect.errors = []) :
    rs.collect.errors = [] ∧ out.error = none := by
  simp only [addOutcome] at h
  split at h
  · simp at h
  · rename_i hnone
    exact ⟨h, hnone⟩

theorem Stable.runJob (hI : Stable call region I) {rs rs' : RegionState} {plan : JobPlan}
    (hc : Keeping I t rs.collect) (h : Collector.runJob SourceRuns.startRun call region rs plan =
      .ok rs') : Keeping I t rs'.collect := by
  simp only [Collector.runJob] at h
  split at h
  · cases h
  · rename_i out hout
    cases h
    refine ⟨?_, fun hgood => ?_⟩
    · rw [addOutcome_session, (runRegionJob_cases hout).1]
      exact hc.committed
    · rw [addOutcome_session]
      have hbefore : rs.collect.errors = [] ∨ I t :=
        hgood.imp_left fun hnil => (addOutcome_errors_nil hnil).1
      rcases hI.runRegionJob (hc.working hbefore) hout with hkept | ⟨hlost, herror⟩
      · exact hkept
      · rw [hlost, hc.committed]
        rcases hgood with hnil | hstart
        · rw [(addOutcome_errors_nil hnil).2] at herror
          cases herror
        · exact hstart

theorem Stable.correlate (hI : Stable call region I) {now : Micros} {rs : RegionState}
    {c : CollectState} (hc : Keeping I t rs.collect) (h : Collector.correlate call now rs = .ok c) :
    Keeping I t c := by
  obtain ⟨_, _, hw, _⟩ := correlate_wrote h
  have hsame := SameJobs.of_writesOnly (hw.writesOnly.mono isRecord_of_isScanWrite)
  have herrors : c.errors = rs.collect.errors := by
    simp only [Collector.correlate] at h
    split at h
    · cases h; rfl
    · split at h
      · cases h
      · cases h; rfl
  refine ⟨hw.writesOnly.committed.trans hc.committed, fun hgood => ?_⟩
  rw [herrors] at hgood
  exact hI.congr (hc.working hgood) hsame

theorem Stable.runJobs (hI : Stable call region I) {jobs : List JobPlan} {rs rs' : RegionState}
    (hc : Keeping I t rs.collect)
    (h : jobs.foldlM (Collector.runJob SourceRuns.startRun call region) rs = .ok rs') :
    Keeping I t rs'.collect :=
  Loop.keep (fun rs : RegionState => Keeping I t rs.collect) (fun _ _ _ _ hc h => hI.runJob hc h)
    hc h

/-- The breaker's count does not matter to what a collection keeps. -/
theorem Keeping.counted {c : CollectState} (h : Keeping I t c) (n : Nat) :
    Keeping I t { c with consecutiveErrors := n } := ⟨h.committed, h.working⟩

theorem Stable.collectRegion {plan : RegionPlan} (hI : Stable call plan.region I) {max : Int}
    {c c' : CollectState} (hc : Keeping I t c)
    (h : Collector.collectRegion SourceRuns.startRun call max c plan = .ok c') :
    Keeping I t c' := by
  rcases collectRegion_cases h with ⟨_, rfl⟩ | ⟨_, rs, c₁, hrs, hcorrelated, rfl⟩
  · refine ⟨hc.committed, fun hgood => hc.working ?_⟩
    rcases hgood with hnil | hstart
    · simp [skipRegion] at hnil
    · exact .inr hstart
  · exact (hI.correlate (hI.runJobs hc hrs) hcorrelated).counted _

theorem isRecord_of_isEnding (w : Write) (h : isEnding w = true) : isRecord w = true := by
  cases w <;> first | rfl | cases h

/-- The end of a collection commits what the session sees; a dry run commits nothing. -/
theorem conclude_cases (target : TargetAccount) (options : Options) (regions : Nat)
    (c : CollectState) :
    (options.dryRun = true ∧ conclude target options regions c = c.session) ∨
      (options.dryRun = false ∧
        SameJobs c.session.working (conclude target options regions c).committed) := by
  rcases conclude_wrote target options regions c with ⟨hdry, hc⟩ | ⟨hdry, s, hw, hc⟩
  · exact .inl ⟨hdry, hc⟩
  · refine .inr ⟨hdry, ?_⟩
    rw [hc]
    exact SameJobs.of_writesOnly (hw.mono isRecord_of_isEnding).writesOnly

end

theorem resolveJobs_ne_nil (target : TargetAccount) {jobs : List ScanJob}
    (htypes : target.resourceTypes ≠ some []) (h : resolveJobs target = .ok jobs) : jobs ≠ [] := by
  rintro rfl
  simp only [resolveJobs] at h
  split at h
  · cases h
  · rename_i types hsome
    have hlength := (Loop.mapM_ok h).length_eq
    exact htypes (hsome.trans (congrArg some (List.length_eq_zero_iff.1 hlength)))

/-- The call an item makes for its account. -/
def callOf (item : WorkItem) (account : Account) : Call :=
  ⟨account.id, item.dryRun, item.force, some item.jobId⟩

/-- What the collection of an item does: it raises and nothing is committed, or it collects its
region for its account, and commits that at its end unless it is dry. -/
theorem processItem_cases (item : WorkItem) (world : World) (t : Store) :
    ((processItem item world t).1 = t ∧ (processItem item world t).2 ≠ .ok []) ∨
      ∃ s account plan c₀ c, Accounts.getOrCreate (.begin t) item.awsAccountId item.name =
          .ok (s, account) ∧
        c₀.session = s ∧ c₀.errors = [] ∧ c₀.consecutiveErrors = 0 ∧
        plan.region = item.region ∧ (item.resourceTypes ≠ some [] → plan.jobs ≠ []) ∧
        collectRegion SourceRuns.startRun (callOf item account) defaultMaxConsecutiveRegionErrors c₀
          plan = .ok c ∧
        (processItem item world t).2 = .ok c.errors ∧
        ((item.dryRun = true ∧ (processItem item world t).1 = c.session.committed) ∨
          (item.dryRun = false ∧ SameJobs c.session.working (processItem item world t).1)) := by
  simp only [processItem]
  split
  · exact .inl ⟨rfl, by simp⟩
  · rename_i s result h
    obtain ⟨jobs, s₀, account, c, hjobs, _, haccount, hc, hout⟩ := collectTargetWith_ok h
    cases hout
    obtain ⟨c', hregion, hnil⟩ := Loop.foldlM_cons_ok.1 hc
    cases hnil
    refine .inr ⟨s₀, account, _, _, c, haccount, rfl, rfl, rfl, rfl, ?_, hregion, rfl, ?_⟩
    · intro htypes
      simpa using resolveJobs_ne_nil (targetOf item) htypes hjobs
    · rcases conclude_cases (targetOf item) (optionsOf item) _ c with ⟨hdry, hsession⟩ |
        ⟨hdry, hsame⟩
      · exact .inl ⟨hdry, congrArg Session.committed hsession⟩
      · exact .inr ⟨hdry, hsame⟩

theorem getOrCreate_cases {t : Store} {s : DbSession} {externalId : String} {name : Option String}
    {account : Account} (h : Accounts.getOrCreate (.begin t) externalId name = .ok (s, account)) :
    (s = .begin t ∧ Accounts.getByExternalId t externalId = .ok (some account)) ∨
      (s = (Session.begin t).write (.account account) ∧
        account = Accounts.newAccount t externalId name ∧
        Accounts.getByExternalId t externalId = .ok none) := by
  simp only [Accounts.getOrCreate] at h
  split at h
  · cases h
  · rename_i hsome
    cases h
    exact .inl ⟨rfl, hsome⟩
  · rename_i hnone
    cases h
    exact .inr ⟨rfl, rfl, hnone⟩

/-- What a collection keeps of the store, it keeps whatever it meets. -/
theorem processItem_keeps (item : WorkItem) (world : World) {t : Store}
    {I : Account → Store → Prop}
    (hI : ∀ account, Stable (callOf item account) item.region (I account))
    (hstart : ∀ s account, Accounts.getOrCreate (.begin t) item.awsAccountId item.name =
      .ok (s, account) → I account t ∧ I account s.working) :
    (processItem item world t).1 = t ∨ ∃ s account,
      Accounts.getOrCreate (.begin t) item.awsAccountId item.name = .ok (s, account) ∧
        I account (processItem item world t).1 := by
  rcases processItem_cases item world t with ⟨hsame, _⟩ |
    ⟨s, account, plan, c₀, c, haccount, hsession, herrors, _, hregion, _, hc, _, hend⟩
  · exact .inl hsame
  · obtain ⟨ht, hs⟩ := hstart s account haccount
    have hcommitted : s.committed = t := by
      rcases getOrCreate_cases haccount with ⟨rfl, _⟩ | ⟨rfl, _⟩ <;> rfl
    have hkeeping : Keeping (I account) t c := by
      refine Stable.collectRegion (hregion ▸ hI account) ⟨?_, fun _ => ?_⟩ hc
      · rw [hsession, hcommitted]
      · rw [hsession]
        exact hs
    rcases hend with ⟨_, hstore⟩ | ⟨_, hstore⟩
    · exact .inl (hstore.trans hkeeping.committed)
    · exact .inr ⟨s, account, haccount, (hI account).congr (hkeeping.working (.inr ht)) hstore⟩

/-! ### The runs of the jobs -/

/-- An abort moves no run of a job: none of them is running. -/
theorem mem_abortedStore {u : Store} (scope : Scope) (now : Micros)
    (hended : ∀ r ∈ u.sourceRuns, r.jobId ≠ none → r.status ≠ .running) {r : SourceRun}
    (hr : r.jobId ≠ none) : r ∈ (abortedStore u scope now).sourceRuns ↔ r ∈ u.sourceRuns := by
  have hnd : (((SourceRuns.activeRuns u scope).map (SourceRuns.aborted now)).map
      SourceRun.id).Nodup := by
    rw [List.map_map]
    exact u.sourceRuns.nodup_filter _
  have hidle : ∀ x ∈ SourceRuns.activeRuns u scope, x.jobId = none := by
    intro x hx
    obtain ⟨hmem, hactive⟩ := List.mem_filter.1 hx
    by_contra hne
    exact hended x hmem hne (of_decide_eq_true hactive).2
  rw [abortedStore, Table.mem_putAll hnd]
  constructor
  · rintro (hput | ⟨hkept, _⟩)
    · obtain ⟨x, hx, rfl⟩ := List.mem_map.1 hput
      exact absurd (hidle x hx) hr
    · exact hkept
  · intro hkept
    refine .inr ⟨hkept, fun y hy hid => ?_⟩
    obtain ⟨x, hx, rfl⟩ := List.mem_map.1 hy
    have hxr : x = r := Table.eq_of_key (List.mem_filter.1 hx).1 hkept hid.symm
    exact hr (hxr ▸ hidle x hx)

theorem stable_jobsKept (job : Uuid) (t : Store) (call : Call) (region : String)
    (hjob : call.jobId = some job) : Stable call region (JobsKept job t) where
  congr h hsame := h.of_eq hsame.sourceRuns hsame.collectJobs
  abort {u} scope now h := by
    have hmem := fun r => mem_abortedStore (u := u) (r := r) scope now h.ended
    exact ⟨h.jobs, fun r hr hne => h.ended r ((hmem r hne).1 hr) hne,
      fun r hne hother => (hmem r hne).trans (h.others r hne hother)⟩
  ran {u run done} h hrun := by
    have hmem : ∀ x, x ≠ done → (x ∈ (u.sourceRuns.put run).put done ↔ x ∈ u.sourceRuns) :=
      fun x hx => Table.mem_put_put hrun.started hrun.same hx
    refine ⟨h.jobs, fun x hx hne => ?_, fun x hne hother => ?_⟩
    · by_cases hxd : x = done
      · rw [hxd]
        exact hrun.ended
      · exact h.ended x ((hmem x hxd).1 hx) hne
    · have hxd : x ≠ done := by
        rintro rfl
        exact hother (hrun.jobId.trans hjob)
      exact (hmem x hxd).trans (h.others x hne hother)

/-- Whatever the collection of an item meets, no run of a job is left running, and only its own
job has other runs than before. -/
theorem processItem_kept (item : WorkItem) (world : World) {t : Store} (ht : Ended t) :
    JobsKept item.jobId t (processItem item world t).1 := by
  have hstart : ∀ s account, Accounts.getOrCreate (.begin t) item.awsAccountId item.name =
      .ok (s, account) → JobsKept item.jobId t t ∧ JobsKept item.jobId t s.working := by
    intro s account haccount
    refine ⟨JobsKept.refl ht _, ?_⟩
    rcases getOrCreate_cases haccount with ⟨rfl, _⟩ | ⟨rfl, _⟩
    · exact JobsKept.refl ht _
    · exact (JobsKept.refl ht _).of_eq rfl rfl
  rcases processItem_keeps item world (fun account => stable_jobsKept item.jobId t
    (callOf item account) item.region rfl) hstart with hsame | ⟨_, _, _, hkept⟩
  · rw [hsame]
    exact JobsKept.refl ht _
  · exact hkept

end CollectJobs

end Constat
