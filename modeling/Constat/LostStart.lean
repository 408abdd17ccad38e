import Constat.CollectorRun

/-!
# LostStart

A start of a run that loses its scope to an active run. `start_run` answers the unique violation
with a rollback of the whole session, in which the earlier jobs and regions of the same target have
written what is not committed yet.

* `startRunInSavepoint` — the start that rolls back its own writes only. In a collection with it a
  lost start is local by construction.
* `Forecast` — which starts of a call are lost, read off the store and the scripts.
* `lostStartsLocal_iff` — a collection loses nothing, and counts what it commits, exactly when every
  lost start finds nothing pending: the account was known, and no job of the call started before.
-/

namespace Constat

open SourceRuns (startRun abortActiveRun activeRuns insertable)

namespace Collector

/-- `start_run` with a savepoint around its writes. -/
def startRunInSavepoint : StartRun := fun s scope force jobId now contended =>
  let s' := if force then abortActiveRun s scope now else s
  let run := SourceRuns.newRun s'.working scope jobId now
  if insertable s'.working scope && !contended then
    (s'.write (.sourceRun run), some run)
  else
    (s.rollbackTo s', none)

/-- The mark a forced start leaves on the run it aborts. -/
def isAbort : Write → Bool
  | .sourceRun r => r.status = .failed ∧ r.error = some SourceRuns.abortedError
  | _ => false

/-- The writes dropped are at most those of the lost starts themselves. -/
def LostFree (s : DbSession) : Prop := ∀ w ∈ s.dropped, isAbort w = true

/-! ## The forecast -/

/-- A run of the job's scope is active already, or wins the scope meanwhile. -/
def JobPlan.lost (store : Store) (call : Call) (region : String) (plan : JobPlan) : Bool :=
  plan.script.contended ||
    (!call.force && !(activeRuns store (scopeOf call region plan.job)).isEmpty)

def JobPlan.fails (store : Store) (call : Call) (region : String) (plan : JobPlan) : Bool :=
  plan.lost store call region || plan.script.ending.fails

/-- For each job that the breaker lets through: is its start lost? And the breaker's count. -/
structure Forecast where
  losses : List Bool
  errors : Nat

def Forecast.region (store : Store) (call : Call) (max : Int) (f : Forecast) (r : RegionPlan) :
    Forecast :=
  if max ≤ f.errors then f
  else
    { losses := f.losses ++ r.jobs.map (·.lost store call r.region)
      errors := if r.jobs.any (·.fails store call r.region) then f.errors + 1 else 0 }

/-- The account was known if any start is lost, and the lost starts come before all others. -/
structure LossesFirst (known : Bool) (losses : List Bool) : Prop where
  known : true ∈ losses → known = true
  first : losses.Pairwise fun earlier later => later = true → earlier = true

namespace LossesFirst

variable {known : Bool} {losses more : List Bool} {lost : Bool}

theorem nil : LossesFirst known [] := ⟨fun h => (by cases h), List.Pairwise.nil⟩

theorem of_append (h : LossesFirst known (losses ++ more)) : LossesFirst known losses :=
  ⟨fun hmem => h.known (List.mem_append_left _ hmem), (List.pairwise_append.1 h.first).1⟩

theorem snoc : LossesFirst known (losses ++ [lost]) ↔
    LossesFirst known losses ∧ (lost = true → known = true ∧ false ∉ losses) := by
  constructor
  · intro h
    refine ⟨h.of_append, fun hlost => ⟨h.known ?_, fun hmem => ?_⟩⟩
    · simp [hlost]
    · have hearlier := (List.pairwise_append.1 h.first).2.2 false hmem lost (by simp) hlost
      cases hearlier
  · rintro ⟨h, hlost⟩
    refine ⟨fun hmem => ?_, List.pairwise_append.2 ⟨h.first, by simp, ?_⟩⟩
    · rcases List.mem_append.1 hmem with hmem | hmem
      · exact h.known hmem
      · exact (hlost (List.mem_singleton.1 hmem).symm).1
    · intro earlier hearlier later hlater heq
      rw [List.mem_singleton.1 hlater] at heq
      cases earlier with
      | true => rfl
      | false => exact absurd hearlier (hlost heq).2

end LossesFirst

/-! ## One start -/

/-- A start of a run in `scope` is not refused. -/
def startable (s : Store) (scope : Scope) (force contended : Bool) : Bool :=
  (s.accounts.get? scope.accountId).isSome && (force || (activeRuns s scope).isEmpty) &&
    !contended

theorem insertable_abortActiveRun (s : DbSession) (scope : Scope) (force contended : Bool)
    (now : Micros) :
    (insertable (if force then abortActiveRun s scope now else s).working scope && !contended) =
      startable s.working scope force contended := by
  cases force with
  | false => simp [insertable, startable]
  | true =>
    have haccounts : (abortActiveRun s scope now).working.accounts = s.working.accounts := by
      rw [SourceRuns.abortActiveRun_working]
    simp [insertable, startable, SourceRuns.activeRuns_abortActiveRun, haccounts]

theorem isAbort_aborts (s : Store) (scope : Scope) (now : Micros) :
    ∀ w ∈ (activeRuns s scope).map fun r => Write.sourceRun (SourceRuns.aborted now r),
      isAbort w = true := by
  intro w hw
  obtain ⟨r, _, rfl⟩ := List.mem_map.1 hw
  simp [isAbort, SourceRuns.aborted]

/-- Both starts make the same aborts `ws` first, and then either insert the run or lose. -/
theorem startRun_cases (s : DbSession) (scope : Scope) (force : Bool) (jobId : Option Uuid)
    (now : Micros) (contended : Bool) :
    ∃ ws, (∀ w ∈ ws, isAbort w = true) ∧ (force = false → ws = []) ∧
      ((startable s.working scope force contended = true ∧
        ∃ run, run = SourceRuns.newRun (s.writes ws).working scope jobId now ∧
          startRun s scope force jobId now contended =
            ((s.writes ws).write (.sourceRun run), some run) ∧
          startRunInSavepoint s scope force jobId now contended =
            ((s.writes ws).write (.sourceRun run), some run)) ∨
      (startable s.working scope force contended = false ∧
        startRun s scope force jobId now contended = ((s.writes ws).rollback, none) ∧
        startRunInSavepoint s scope force jobId now contended =
          (s.rollbackTo (s.writes ws), none))) := by
  obtain ⟨ws, hs, hws, hforce⟩ : ∃ ws,
      (if force then abortActiveRun s scope now else s) = s.writes ws ∧
      (∀ w ∈ ws, isAbort w = true) ∧ (force = false → ws = []) := by
    cases force with
    | false => exact ⟨[], rfl, fun w hw => (by cases hw), fun _ => rfl⟩
    | true => exact ⟨_, rfl, isAbort_aborts _ _ _, fun h => by cases h⟩
  refine ⟨ws, hws, hforce, ?_⟩
  rw [← insertable_abortActiveRun s scope force contended now, startRun, startRunInSavepoint, hs]
  by_cases hins : (insertable (s.writes ws).working scope && !contended) = true
  · exact .inl ⟨hins, _, rfl, if_pos hins, if_pos hins⟩
  · exact .inr ⟨Bool.eq_false_iff.2 hins, if_neg hins, if_neg hins⟩

/-! ## What holds while the losses come first -/

/-- The two stores have the same running runs. -/
def SameRunning (s t : Store) : Prop :=
  ∀ r : SourceRun, r.status = .running → (r ∈ s.sourceRuns ↔ r ∈ t.sourceRuns)

theorem SameRunning.activeRuns_isEmpty {s t : Store} (h : SameRunning s t) (scope : Scope) :
    (activeRuns s scope).isEmpty = (activeRuns t scope).isEmpty := by
  rw [Bool.eq_iff_iff, List.isEmpty_iff, List.isEmpty_iff, activeRuns, activeRuns,
    List.filter_eq_nil_iff, List.filter_eq_nil_iff]
  simp only [decide_eq_true_eq]
  constructor
  · exact fun hs r hr hrun => hs r ((h r hrun.2).2 hr) hrun
  · exact fun ht r hr hrun => ht r ((h r hrun.2).1 hr) hrun

theorem SameRunning.trans {s t u : Store} (h : SameRunning s t) (h' : SameRunning t u) :
    SameRunning s u := fun r hr => (h r hr).trans (h' r hr)

theorem tally_aborts {ws : List Write} (h : ∀ w ∈ ws, isAbort w = true) : tally ws = 0 := by
  have hnone : ∀ p : Write → Bool, (∀ r, p (.sourceRun r) = false) → ws.countP p = 0 := by
    intro p hp
    rw [List.countP_eq_zero]
    intro w hw
    have habort := h w hw
    cases w with
    | sourceRun r => simp [hp]
    | _ => cases habort
  simp [tally, hnone isUpsert fun _ => rfl, hnone isObservation fun _ => rfl,
    hnone isFact fun _ => rfl]

/-- A session in which no start has dropped what others wrote: after starts with these `losses`,
with `n` resources, observations and facts written. Something is pending exactly when the account
is new or a start was not lost. -/
structure Intact (store : Store) (call : Call) (known : Bool) (losses : List Bool)
    (n : Nat × Nat × Nat) (s : DbSession) : Prop where
  durable : s.durable = []
  lostFree : LostFree s
  counts : tally s.pending = n
  account : (s.working.accounts.get? call.accountId).isSome = true
  running : call.force = false → SameRunning s.working store
  quiet : known = true → false ∉ losses → s.pending = []
  loud : ¬ (known = true ∧ false ∉ losses) → ∃ w ∈ s.pending, isAbort w = false

/-- A write that is no abort was dropped. -/
def Lossy (s : DbSession) : Prop := ∃ w ∈ s.dropped, isAbort w = false

theorem Lossy.not_lostFree {s : DbSession} (h : Lossy s) : ¬ LostFree s := by
  obtain ⟨w, hw, habort⟩ := h
  intro hfree
  rw [hfree w hw] at habort
  cases habort

namespace Intact

variable {store : Store} {call : Call} {known : Bool} {losses : List Bool}
  {n : Nat × Nat × Nat} {s : DbSession}

theorem lost_eq (h : Intact store call known losses n s) (region : String) (plan : JobPlan) :
    plan.lost store call region =
      !startable s.working (scopeOf call region plan.job) call.force plan.script.contended := by
  have haccount : (s.working.accounts.get? (scopeOf call region plan.job).accountId).isSome = true :=
    h.account
  rw [JobPlan.lost, startable, haccount]
  cases hforce : call.force with
  | true => simp
  | false => rw [(h.running hforce).activeRuns_isEmpty]; simp [Bool.or_comm]

/-- A lost start with nothing pending. -/
theorem lose (h : Intact store call known losses n s) (hknown : known = true)
    (hlosses : false ∉ losses) {ws : List Write} (hws : ∀ w ∈ ws, isAbort w = true) :
    Intact store call known (losses ++ [true]) n (s.writes ws).rollback := by
  have hpending := h.quiet hknown hlosses
  have hworking : (s.writes ws).rollback.working = s.working := by
    rw [Session.rollback_working, Session.writes_committed, Session.working_of_pending_nil hpending]
  refine ⟨?_, ?_, ?_, ?_, ?_, fun _ _ => rfl, fun hn => ?_⟩
  · simp [h.durable]
  · intro w hw
    simp only [Session.rollback_dropped, Session.writes_dropped, Session.writes_pending, hpending,
      List.nil_append] at hw
    rcases List.mem_append.1 hw with hw | hw
    · exact h.lostFree w hw
    · exact hws w hw
  · rw [← h.counts, hpending]; rfl
  · rw [hworking]; exact h.account
  · rw [hworking]; exact h.running
  · exact absurd ⟨hknown, by simpa using hlosses⟩ hn

/-- A lost start with something pending. -/
theorem lossy (h : Intact store call known losses n s)
    (hn : ¬ (known = true ∧ false ∉ losses)) (ws : List Write) :
    Lossy (s.writes ws).rollback := by
  obtain ⟨w, hw, habort⟩ := h.loud hn
  exact ⟨w, by simp [hw], habort⟩

/-- A start that is not lost, with the scan after it. -/
theorem ran (h : Intact store call known losses n s) {ws : List Write}
    (hws : ∀ w ∈ ws, isAbort w = true) (hforce : call.force = false → ws = []) {scope : Scope}
    {jobId : Option Uuid} {now : Micros} {run : SourceRun}
    (hrun : run = SourceRuns.newRun (s.writes ws).working scope jobId now) {plan : JobPlan}
    {out : JobOutcome} (hran : Ran ((s.writes ws).write (.sourceRun run)) run plan out) :
    Intact store call known (losses ++ [false]) (n + out.state.counts) out.state.session := by
  obtain ⟨⟨ws', hws', hout, hcounts⟩, haccounts, ⟨r, hid, hstatus, hruns⟩, _⟩ := hran
  have hnew : run.status = .running := by rw [hrun]; rfl
  refine ⟨?_, ?_, ?_, ?_, fun hf => ?_, fun _ hn => ?_, fun _ => ?_⟩
  · simp [hout, h.durable]
  · intro w hw
    rw [hout] at hw
    exact h.lostFree w (by simpa using hw)
  · have hpending : out.state.session.pending = s.pending ++ (ws ++ [.sourceRun run] ++ ws') := by
      simp [hout]
    rw [hpending, tally_append, tally_append, tally_append, tally_aborts hws, h.counts, hcounts]
    simp [tally, isUpsert, isObservation, isFact]
  · have hkeep := (show Session.WritesOnly isAbort s (s.writes ws) from ⟨ws, hws, rfl⟩).frame
      Store.accounts fun w hw t => by cases w <;> first | rfl | cases hw
    rw [haccounts, Session.write_working]
    exact (congrArg (fun t => (t.get? call.accountId).isSome) hkeep).trans h.account
  · rw [hforce hf] at hrun hruns
    refine SameRunning.trans ?_ (h.running hf)
    intro z hz
    rw [hruns]
    exact Table.mem_put_put (by rw [hrun]; rfl) hid fun heq => hstatus (heq ▸ hz)
  · exact absurd (List.mem_append_right losses (List.mem_singleton_self false)) hn
  · refine ⟨.sourceRun run, ?_, by simp [isAbort, hnew]⟩
    simp [hout]

end Intact

/-! ## One job -/

theorem get?_startedRun (s : DbSession) (run : SourceRun) :
    (s.write (.sourceRun run)).working.sourceRuns.get? run.id = some run := by
  rw [Session.write_working, Table.get?_eq_some]
  exact ⟨Table.mem_put_self _ _, rfl⟩

theorem Lossy.wrote {p : Write → Bool} {n : Nat × Nat × Nat} {s s' : DbSession} (hs : Lossy s)
    (h : Wrote p n s s') : Lossy s' := by
  obtain ⟨ws, _, rfl, _⟩ := h
  obtain ⟨w, hw, habort⟩ := hs
  exact ⟨w, by simpa using hw, habort⟩

theorem Lossy.runRegionJob {call : Call} {region : String} {s : DbSession} {fresh : Uuid}
    {plan : JobPlan} {out : JobOutcome} (hs : Lossy s)
    (h : runRegionJob startRun call region s fresh plan = .ok out) : Lossy out.state.session := by
  obtain ⟨w, hw, habort⟩ := hs
  obtain ⟨ws, _, _, ⟨_, run, _, hstart, _⟩ | ⟨_, hstart, _⟩⟩ := startRun_cases s
    (scopeOf call region plan.job) call.force call.jobId plan.script.startedAt plan.script.contended
  · simp only [Collector.runRegionJob, hstart] at h
    have hlossy : Lossy ((s.writes ws).write (.sourceRun run)) := ⟨w, by simpa using hw, habort⟩
    exact hlossy.wrote (runScan_ran (get?_startedRun _ run) h).wrote
  · simp only [Collector.runRegionJob, hstart] at h
    cases h
    exact ⟨w, by simp [JobState.start, hw], habort⟩

/-- The forecast inside a region: the losses so far, and whether a job of the region failed. -/
structure JobsForecast where
  losses : List Bool
  failed : Bool

def JobsForecast.job (store : Store) (call : Call) (region : String) (f : JobsForecast)
    (plan : JobPlan) : JobsForecast where
  losses := f.losses ++ [plan.lost store call region]
  failed := f.failed || plan.fails store call region

def CollectState.counts (c : CollectState) : Nat × Nat × Nat :=
  (c.resourcesWritten, c.observationsWritten, c.factsWritten)

structure RegionIntact (store : Store) (call : Call) (known : Bool) (errors : Nat)
    (f : JobsForecast) (rs : RegionState) : Prop where
  collect : Intact store call known f.losses rs.collect.counts rs.collect.session
  failed : rs.hadError = f.failed
  errors : rs.collect.consecutiveErrors = errors
  items : rs.itemsByJob.items ≠ [] → false ∈ f.losses

theorem addOutcome_counts (region : String) (job : ScanJob) (rs : RegionState) (out : JobOutcome) :
    (addOutcome region job rs out).collect.counts = rs.collect.counts + out.state.counts := by
  cases h : out.error <;> simp [addOutcome, h, CollectState.counts, JobState.counts]

theorem addOutcome_session (region : String) (job : ScanJob) (rs : RegionState)
    (out : JobOutcome) : (addOutcome region job rs out).collect.session = out.state.session := by
  cases h : out.error <;> simp [addOutcome, h]

theorem addOutcome_errors (region : String) (job : ScanJob) (rs : RegionState) (out : JobOutcome) :
    (addOutcome region job rs out).collect.consecutiveErrors = rs.collect.consecutiveErrors := by
  cases h : out.error <;> simp [addOutcome, h]

theorem addOutcome_hadError (region : String) (job : ScanJob) (rs : RegionState)
    (out : JobOutcome) :
    (addOutcome region job rs out).hadError = (rs.hadError || out.error.isSome) := by
  cases h : out.error <;> simp [addOutcome, h]

theorem Lossy.runJob {call : Call} {region : String} {rs rs' : RegionState} {plan : JobPlan}
    (hs : Lossy rs.collect.session) (h : runJob startRun call region rs plan = .ok rs') :
    Lossy rs'.collect.session := by
  simp only [Collector.runJob] at h
  split at h
  · cases h
  · rename_i out hout
    cases h
    rw [addOutcome_session]
    exact hs.runRegionJob hout

/-- One job: as long as the losses come first, the savepoint makes no difference. -/
theorem runJob_follows {store : Store} {call : Call} {known : Bool} {errors : Nat} {region : String}
    {f : JobsForecast} {plan : JobPlan} {rs : RegionState} (hgood : LossesFirst known f.losses)
    (h : RegionIntact store call known errors f rs) :
    Loop.Follows (LossesFirst known (f.job store call region plan).losses)
      (RegionIntact store call known errors (f.job store call region plan))
      (fun rs' => Lossy rs'.collect.session)
      (runJob startRun call region rs plan) (runJob startRunInSavepoint call region rs plan) := by
  have hlost := h.collect.lost_eq region plan
  obtain ⟨ws, hws, hforce, ⟨hstartable, run, hrun, hstart, hstart'⟩ | ⟨hstartable, hstart, hstart'⟩⟩ :=
    startRun_cases rs.collect.session (scopeOf call region plan.job) call.force call.jobId
      plan.script.startedAt plan.script.contended
  · rw [hstartable, Bool.not_true] at hlost
    have hstill : LossesFirst known (f.job store call region plan).losses :=
      LossesFirst.snoc.2 ⟨hgood, fun heq => by rw [hlost] at heq; cases heq⟩
    refine ⟨fun _ => ?_, fun _ rs' hrs' => ?_, fun hn => absurd hstill hn⟩
    · simp only [runJob, runRegionJob, hstart, hstart']
    · simp only [runJob, runRegionJob, hstart] at hrs'
      split at hrs'
      · cases hrs'
      · rename_i out hout
        cases hrs'
        have hran := runScan_ran (get?_startedRun _ run) hout
        refine ⟨?_, ?_, ?_, fun _ => ?_⟩
        · rw [addOutcome_session, addOutcome_counts]
          simp only [JobsForecast.job, hlost]
          exact h.collect.ran hws hforce hrun hran
        · rw [addOutcome_hadError, h.failed, hran.error]
          simp [JobsForecast.job, JobPlan.fails, hlost]
        · rw [addOutcome_errors, h.errors]
        · simp [JobsForecast.job, hlost]
  · rw [hstartable, Bool.not_false] at hlost
    have hsnoc : LossesFirst known (f.job store call region plan).losses ↔
        known = true ∧ false ∉ f.losses := by
      simp only [JobsForecast.job, hlost]
      exact LossesFirst.snoc.trans ⟨fun hs => hs.2 rfl, fun hk => ⟨hgood, fun _ => hk⟩⟩
    rw [hsnoc]
    refine ⟨fun hk => ?_, fun hk rs' hrs' => ?_, fun hn rs' hrs' => ?_⟩
    · have hsame := Session.rollbackTo_of_pending_nil rs.collect.session
        (h.collect.quiet hk.1 hk.2) ws
      simp only [runJob, runRegionJob, hstart, hstart', hsame]
    · simp only [runJob, runRegionJob, hstart] at hrs'
      cases hrs'
      refine ⟨?_, ?_, h.errors, fun hitems => ?_⟩
      · simp only [JobsForecast.job, hlost]
        exact h.collect.lose hk.1 hk.2 hws
      · simp [addOutcome, JobsForecast.job, JobPlan.fails, hlost]
      · exact List.mem_append_left _ (h.items hitems)
    · simp only [runJob, runRegionJob, hstart] at hrs'
      cases hrs'
      exact h.collect.lossy hn ws

/-! ## One region -/

theorem JobsForecast.foldl_job (store : Store) (call : Call) (region : String)
    (plans : List JobPlan) (f : JobsForecast) :
    plans.foldl (JobsForecast.job store call region) f =
      ⟨f.losses ++ plans.map (·.lost store call region),
        f.failed || plans.any (·.fails store call region)⟩ := by
  induction plans generalizing f with
  | nil => simp
  | cons plan plans ih =>
    rw [List.foldl_cons, ih]
    simp [JobsForecast.job, Bool.or_assoc]

/-- The jobs of one region. -/
theorem runJobs_follows {store : Store} {call : Call} {known : Bool} (region : String)
    {f : Forecast} {c : CollectState} (plans : List JobPlan) (hgood : LossesFirst known f.losses)
    (h : Intact store call known f.losses c.counts c.session) :
    let g : JobsForecast := ⟨f.losses ++ plans.map (·.lost store call region),
      plans.any (·.fails store call region)⟩
    Loop.Follows (LossesFirst known g.losses)
      (RegionIntact store call known c.consecutiveErrors g)
      (fun rs => Lossy rs.collect.session)
      (plans.foldlM (runJob startRun call region) ⟨c, false, .empty⟩)
      (plans.foldlM (runJob startRunInSavepoint call region) ⟨c, false, .empty⟩) := by
  intro g
  have hfollow := Loop.follow (JobsForecast.job store call region)
    (fun f => LossesFirst known f.losses) (RegionIntact store call known c.consecutiveErrors)
    (fun rs => Lossy rs.collect.session)
    (fun _ _ hg => hg.of_append) (fun _ _ _ hs hrun => hs.runJob hrun)
    (fun _ _ _ hg hrs => runJob_follows hg hrs) plans ⟨f.losses, false⟩ ⟨c, false, .empty⟩ hgood
    ⟨h, rfl, rfl, fun hitems => absurd rfl hitems⟩
  rw [JobsForecast.foldl_job, Bool.false_or] at hfollow
  exact hfollow

theorem Intact.wrote {store : Store} {call : Call} {known : Bool} {losses : List Bool}
    {n m : Nat × Nat × Nat} {s s' : DbSession} (h : Intact store call known losses n s)
    (hw : Wrote isScanWrite m s s') (hlosses : false ∈ losses) :
    Intact store call known losses (n + m) s' := by
  obtain ⟨haccounts, hruns⟩ := hw.frame
  obtain ⟨ws, _, rfl, rfl⟩ := hw
  refine ⟨by simp [h.durable], ?_, ?_, by rw [haccounts]; exact h.account, fun hf r hr => ?_,
    fun _ hn => absurd hlosses hn, fun hn => ?_⟩
  · intro w hw
    exact h.lostFree w (by simpa using hw)
  · rw [Session.writes_pending, tally_append, h.counts]
  · rw [hruns]; exact h.running hf r hr
  · obtain ⟨w, hw, habort⟩ := h.loud hn
    exact ⟨w, by simp [hw], habort⟩

theorem correlate_wrote {call : Call} {now : Micros} {rs : RegionState} {c : CollectState}
    (h : correlate call now rs = .ok c) :
    (c = rs.collect ∨ rs.itemsByJob.items ≠ []) ∧
      ∃ m, Wrote isScanWrite m rs.collect.session c.session ∧ c.counts = rs.collect.counts + m ∧
        c.consecutiveErrors = rs.collect.consecutiveErrors := by
  simp only [correlate] at h
  split at h
  · cases h
    exact ⟨.inl rfl, 0, Wrote.refl _ _, (add_zero _).symm, rfl⟩
  · rename_i hwrites
    split at h
    · cases h
    · rename_i s inserted updated hfacts
      cases h
      refine ⟨.inr fun hitems => hwrites (by simp [hitems]), _, upsertFacts_wrote hfacts, ?_, rfl⟩
      simp [CollectState.counts]

/-- A collection so far: intact, with the breaker's count as forecast. -/
structure CollectIntact (store : Store) (call : Call) (known : Bool) (f : Forecast)
    (c : CollectState) : Prop where
  intact : Intact store call known f.losses c.counts c.session
  errors : c.consecutiveErrors = f.errors

theorem correlate_intact {store : Store} {call : Call} {known : Bool} {errors : Nat}
    {f : JobsForecast} {now : Micros} {rs : RegionState} {c : CollectState}
    (h : RegionIntact store call known errors f rs) (hc : correlate call now rs = .ok c) :
    Intact store call known f.losses c.counts c.session ∧ c.consecutiveErrors = errors := by
  obtain ⟨rfl | hitems, m, hw, hcounts, herrors⟩ := correlate_wrote hc
  · exact ⟨h.collect, h.errors⟩
  · rw [hcounts, herrors, h.errors]
    exact ⟨h.collect.wrote hw (h.items hitems), rfl⟩

theorem Lossy.collectRegion {call : Call} {max : Int} {plan : RegionPlan} {c c' : CollectState}
    (hs : Lossy c.session) (h : collectRegion startRun call max c plan = .ok c') :
    Lossy c'.session := by
  rcases collectRegion_cases h with ⟨_, rfl⟩ | ⟨_, rs, c₁, hrs, hc, rfl⟩
  · exact hs
  · have hjobs : Lossy rs.collect.session := Loop.keep
      (fun rs : RegionState => Lossy rs.collect.session) (fun _ _ _ _ hs h => hs.runJob h) hs hrs
    obtain ⟨_, _, hw, _⟩ := correlate_wrote hc
    exact hjobs.wrote hw

/-- One region. -/
theorem collectRegion_follows {store : Store} {call : Call} {known : Bool} {max : Int}
    {f : Forecast} {plan : RegionPlan} {c : CollectState} (hgood : LossesFirst known f.losses)
    (h : CollectIntact store call known f c) :
    Loop.Follows (LossesFirst known (f.region store call max plan).losses)
      (CollectIntact store call known (f.region store call max plan)) (fun c => Lossy c.session)
      (collectRegion startRun call max c plan) (collectRegion startRunInSavepoint call max c plan) := by
  simp only [collectRegion, Forecast.region, h.errors]
  by_cases hbreaker : max ≤ f.errors
  · simp only [if_pos hbreaker]
    refine ⟨fun _ => rfl, fun _ c' hc' => ?_, fun hn => absurd hgood hn⟩
    cases hc'
    exact ⟨h.intact, h.errors⟩
  · simp only [if_neg hbreaker]
    have hjobs := runJobs_follows plan.region plan.jobs hgood h.intact
    refine ⟨fun hfirst => by rw [hjobs.same hfirst], fun hfirst c' hc' => ?_, fun hn c' hc' => ?_⟩
    · split at hc'
      · cases hc'
      · rename_i rs hrs
        have hrs' := hjobs.keeps hfirst rs hrs
        split at hc'
        · cases hc'
        · rename_i c₁ hc₁
          cases hc'
          obtain ⟨hintact, herrors⟩ := correlate_intact hrs' hc₁
          refine ⟨hintact, ?_⟩
          simp only [hrs'.failed, herrors, h.errors]
    · split at hc'
      · cases hc'
      · rename_i rs hrs
        split at hc'
        · cases hc'
        · rename_i c₁ hc₁
          cases hc'
          obtain ⟨_, _, hw, _⟩ := correlate_wrote hc₁
          exact (hjobs.breaks hn rs hrs).wrote hw

/-! ## The call -/

def accountKnown (target : TargetAccount) (store : Store) : Bool :=
  match Accounts.getByExternalId store target.awsAccountId with
  | .ok (some _) => true
  | _ => false

/-- Which starts of the call are lost. -/
def losses (target : TargetAccount) (options : Options) (world : World) (store : Store) :
    List Bool :=
  match resolveJobs target,
    Accounts.getOrCreate (Session.begin store) target.awsAccountId target.name with
  | .ok jobs, .ok (_, account) =>
    ((planOf world jobs (regionsOf target)).foldl
      (Forecast.region store ⟨account.id, options.dryRun, options.force, options.jobId⟩
        options.maxConsecutiveRegionErrors) ⟨[], 0⟩).losses
  | _, _ => []

def CollectionResult.counts (res : CollectionResult) : Nat × Nat × Nat :=
  (res.resourcesWritten, res.observationsWritten, res.factsWritten)

/-- The call ends as if each lost start had rolled back itself alone: the other jobs ran, what they
wrote is there at the commit, and the counters count it. -/
structure LostStartsLocal (target : TargetAccount) (options : Options) (world : World)
    (store : Store) (s : DbSession) (res : CollectionResult) : Prop where
  local_ : collectTargetWith startRunInSavepoint target options world (Session.begin store) =
    .ok (s, res)
  kept : LostFree s
  committed : options.dryRun = false → s.pending = []
  counted : tally (s.durable ++ s.pending) = res.counts

/-- The session once the account is there. -/
theorem getOrCreate_intact {target : TargetAccount} {store : Store} {s : DbSession}
    {account : Account} {call : Call} (hcall : call.accountId = account.id)
    (h : Accounts.getOrCreate (Session.begin store) target.awsAccountId target.name =
      .ok (s, account)) :
    Intact store call (accountKnown target store) [] 0 s := by
  simp only [Accounts.getOrCreate, Session.begin_working] at h
  split at h
  · cases h
  · rename_i account' hget
    cases h
    have hmem : account ∈ store.accounts := by
      have honly := eq_singleton_of_scalarOneOrNone hget
      exact (List.mem_filter.1 (honly ▸ List.mem_singleton_self account)).1
    refine ⟨rfl, fun w hw => (by cases hw), rfl, ?_, fun _ _ _ => Iff.rfl, fun _ _ => rfl,
      fun hn => ?_⟩
    · rw [Session.begin_working, Option.isSome_iff_exists]
      exact ⟨account, Table.get?_eq_some.2 ⟨hmem, hcall.symm⟩⟩
    · exact absurd ⟨by simp only [accountKnown, hget], by simp⟩ hn
  · rename_i hget
    cases h
    refine ⟨rfl, fun w hw => (by cases hw), rfl, ?_, fun _ _ _ => Iff.rfl, fun hk => ?_,
      fun _ => ⟨_, List.mem_singleton_self _, rfl⟩⟩
    · rw [Option.isSome_iff_exists]
      exact ⟨_, Table.get?_eq_some.2 ⟨Table.mem_put_self _ _, hcall.symm⟩⟩
    · simp [accountKnown, hget] at hk

/-- The classifications and the audit record are not among the counted writes. -/
theorem conclude_spec (target : TargetAccount) (options : Options) (regions : Nat)
    (c : CollectState) : let s := conclude target options regions c
    s.dropped = c.session.dropped ∧ (options.dryRun = false → s.pending = []) ∧
      tally (s.durable ++ s.pending) = tally (c.session.durable ++ c.session.pending) := by
  intro s
  rcases conclude_wrote target options regions c with ⟨hdry, hc⟩ | ⟨_, s', ⟨ws, _, rfl, hzero⟩, hc⟩
  · have hs : s = c.session := hc
    rw [hs]
    exact ⟨rfl, fun h => by simp [hdry] at h, rfl⟩
  · have hs : s = (c.session.writes ws).commit := hc
    rw [hs]
    refine ⟨by simp, fun _ => rfl, ?_⟩
    rw [Session.commit_pending, List.append_nil, Session.commit_durable, Session.writes_durable,
      Session.writes_pending, ← List.append_assoc, tally_append _ ws, hzero]
    rfl

theorem CollectIntact.start {store : Store} {call : Call} {known : Bool} {s : DbSession}
    {fresh : Uuid} (h : Intact store call known [] 0 s) :
    CollectIntact store call known ⟨[], 0⟩ ⟨s, fresh, 0, 0, 0, [], [], 0⟩ := ⟨h, rfl⟩

/-- A call that returns keeps its lost starts local exactly when the account was there before or no
start is lost, and every lost start comes before any that is not. -/
theorem lostStartsLocal_iff {target : TargetAccount} {options : Options} {world : World}
    {store : Store} {s : DbSession} {res : CollectionResult}
    (h : collectTarget target options world (Session.begin store) = .ok (s, res)) :
    LostStartsLocal target options world store s res ↔
      LossesFirst (accountKnown target store) (losses target options world store) := by
  obtain ⟨jobs, s₀, account, c, hjobs, hrole, haccount, hc, hout⟩ := collectTargetWith_ok h
  cases hout
  have hfollow := Loop.follow
    (Forecast.region store ⟨account.id, options.dryRun, options.force, options.jobId⟩
      options.maxConsecutiveRegionErrors)
    (fun f => LossesFirst (accountKnown target store) f.losses)
    (CollectIntact store _ (accountKnown target store)) (fun c => Lossy c.session)
    (fun f plan hg => by
      simp only [Forecast.region] at hg
      split at hg
      · exact hg
      · exact hg.of_append)
    (fun _ _ _ hs hrun => hs.collectRegion hrun)
    (fun _ _ _ hg hc => collectRegion_follows hg hc)
    (planOf world jobs (regionsOf target)) ⟨[], 0⟩
    ⟨s₀, s₀.working.resources.next, 0, 0, 0, [], [], 0⟩ LossesFirst.nil
    (CollectIntact.start (getOrCreate_intact rfl haccount))
  have hlosses : losses target options world store =
      ((planOf world jobs (regionsOf target)).foldl (Forecast.region store
        ⟨account.id, options.dryRun, options.force, options.jobId⟩
        options.maxConsecutiveRegionErrors) ⟨[], 0⟩).losses := by
    simp only [losses, hjobs, haccount]
  rw [hlosses]
  obtain ⟨hdropped, hcommitted, htally⟩ := conclude_spec target options (regionsOf target).length c
  constructor
  · intro hlocal
    by_contra hn
    obtain ⟨w, hw, habort⟩ := hfollow.breaks hn c hc
    exact Lossy.not_lostFree ⟨w, by rw [hdropped]; exact hw, habort⟩ hlocal.kept
  · intro hfirst
    have hintact := (hfollow.keeps hfirst c hc).intact
    refine ⟨?_, ?_, hcommitted, ?_⟩
    · simp only [collectTargetWith, hjobs, hrole, haccount]
      rw [hfollow.same hfirst, hc]
    · intro w hw
      rw [hdropped] at hw
      exact hintact.lostFree w hw
    · rw [htally, hintact.durable, List.nil_append, hintact.counts]
      rfl

/-- Two jobs, of which another run wins the scope of the `lost` one; the other sees `raw`. -/
def race (lost : Nat) (raw : Raw) : World where
  assumeRole := none
  job := fun _ j => {
    contended := j = lost
    startedAt := 0
    items := if j = lost then [] else [⟨raw, 1, 2⟩]
    ending := .completed
    finishedAt := 3
    retiredAt := 4 }
  correlatedAt := fun _ => 5

def twoJobs (resourceTypes : List String) : TargetAccount where
  awsAccountId := "123456789012"
  roleArn := none
  externalId := none
  name := none
  regions := some ["eu-west-1"]
  resourceTypes := some resourceTypes

def orders : Raw := [("DBInstanceArn", .str "orders"), ("Engine", .str "postgres")]

def oneCall : Options := ⟨false, false, defaultMaxConsecutiveRegionErrors, none⟩

/-- The volume job's lost start drops the account and all that the RDS job wrote, and the call still
counts it. -/
theorem volumes_drop_rds : ∃ s res,
    collectTarget (twoJobs ["rds", "ec2_volume"]) oneCall (race 1 orders) (Session.begin .empty) =
        .ok (s, res) ∧
      tally s.durable = (0, 0, 0) ∧ res.counts = (1, 1, 5) ∧
      ¬ LostStartsLocal (twoJobs ["rds", "ec2_volume"]) oneCall (race 1 orders) .empty s res := by
  have hrun : ((collectTarget (twoJobs ["rds", "ec2_volume"]) oneCall (race 1 orders)
      (Session.begin .empty)).toOption.any fun r =>
        tally (r.1.durable ++ r.1.pending) = (0, 0, 0) ∧ tally r.1.durable = (0, 0, 0) ∧
          r.2.counts = (1, 1, 5)) = true := by decide +kernel
  cases h : collectTarget (twoJobs ["rds", "ec2_volume"]) oneCall (race 1 orders)
      (Session.begin .empty) with
  | error e => simp [h, Except.toOption] at hrun
  | ok r =>
    simp only [h, Except.toOption, Option.any_some, decide_eq_true_eq] at hrun
    obtain ⟨hkept, hdurable, hcounts⟩ := hrun
    refine ⟨r.1, r.2, rfl, hdurable, hcounts, fun hlocal => ?_⟩
    have hcounted := hlocal.counted
    rw [hkept, hcounts] at hcounted
    cases hcounted

/-- The account of `twoJobs` is known. -/
def knownAccount : Store :=
  applyWrite .empty (.account ⟨0, "123456789012", none⟩)

/-- The same jobs with the lost one first. -/
theorem first_loss_local : ∃ s res,
    collectTarget (twoJobs ["ec2_volume", "rds"]) oneCall (race 0 orders)
      (Session.begin knownAccount) = .ok (s, res) ∧
      LostStartsLocal (twoJobs ["ec2_volume", "rds"]) oneCall (race 0 orders) knownAccount s res := by
  have hrun : (collectTarget (twoJobs ["ec2_volume", "rds"]) oneCall (race 0 orders)
      (Session.begin knownAccount)).toOption.isSome = true := by decide +kernel
  have hlosses : losses (twoJobs ["ec2_volume", "rds"]) oneCall (race 0 orders) knownAccount =
      [true, false] := by decide +kernel
  cases h : collectTarget (twoJobs ["ec2_volume", "rds"]) oneCall (race 0 orders)
      (Session.begin knownAccount) with
  | error e => simp [h, Except.toOption] at hrun
  | ok r =>
    refine ⟨r.1, r.2, rfl, (lostStartsLocal_iff h).2 ?_⟩
    rw [hlosses]
    exact ⟨fun _ => by decide +kernel, by decide⟩

end Collector

end Constat
