import Mathlib.Data.List.Induction
import Constat.FactView
import Constat.Retirement

/-!
# ScanEnds

`_run_region_job` with every way its scan can end. `runRegionJob` has no session for a call that an
exception ends; `conductJob` has the one that its `finally` block leaves.

* `scanThrough` — the loop over the items, and what an item that raises leaves behind.
* `Exhausted`   — every item went through, and then the generator ended.
* `Honest`      — what the row of a run says of its scan.
* `HandedOn`    — what the correlation pass is given.
-/

namespace Constat

open Collectors
open Session (WritesOnly)
open SourceRuns (startRun)

namespace Collector

/-! ## The loop -/

/-- The facts of a batch in front of the one whose lookup raises. -/
def factsBefore (s : Store) (run : Option Uuid) : Facts.Batch → List Fact → Facts.Batch
  | b, [] => b
  | b, f :: facts =>
    match Facts.addFact s run b f with
    | .ok b => factsBefore s run b facts
    | .error _ => b

/-- What is left of a batch of facts that raised; a flush that fails rolls the session back. -/
def factsRaised (s : DbSession) (facts : List Fact) (run : Option Uuid) : DbError → DbSession
  | .multipleResultsFound =>
    s.writes ((factsBefore s.working run ⟨[], 0, 0⟩ facts).rows.map .fact)
  | .integrityError => s.rollback

/-- The state in which an item that raises leaves the loop: it is not counted. -/
def itemRaised (call : Call) (region : String) (job : ScanJob) (run : SourceRun) (st : JobState)
    (item : ScannedItem) : JobState :=
  let raw := tagRegion region item.raw
  match nativeIdForJob job.key raw with
  | .error _ => st
  | .ok nativeId =>
    match Resources.upsertResource st.session (naturalKey call region job nativeId) item.seenAt
        st.fresh with
    | .error _ => st
    | .ok (s, r) =>
      let seen := { st.upserted s r.id raw with resources := st.resources }
      let s := Observations.insertObservation s (job.observation r.id raw item.observedAt)
        (some run.id)
      let facts := job.facts r.id call.accountId raw item.observedAt
      match Facts.upsertFacts s facts (some run.id) with
      | .error e => { seen with
          session := factsRaised s facts (some run.id) e
          observations := st.observations + 1 }
      | .ok _ => seen

/-- The loop over the items, up to the first one that raises. -/
def scanThrough (call : Call) (region : String) (job : ScanJob) (run : SourceRun) :
    List ScannedItem → JobState → JobState × Option PyError
  | [], st => (st, none)
  | item :: items, st =>
    match scanItem call region job run st item with
    | .ok st => scanThrough call region job run items st
    | .error e => (itemRaised call region job run st item, some e)

/-! ## One job -/

/-- The `finally` block: finish the run, and sweep the scope after a completed scan. -/
def finallyBlock (call : Call) (region : String) (plan : JobPlan) (run : SourceRun) (st : JobState)
    (scanCompleted : Bool) (regionError : Option String) : DbSession :=
  let status := SourceRuns.jobStatus scanCompleted regionError
  let s := SourceRuns.finishRun st.session run.id status (some st.resources) regionError
    plan.script.finishedAt
  if status = .success ∧ scanCompleted ∧ !call.dryRun then
    (Resources.retireStaleResources s (scopeOf call region plan.job) plan.script.retiredAt).1
  else s

/-- A call and the session it leaves, whether it returns or raises. -/
structure Conducted where
  session : DbSession
  outcome : Except PyError JobOutcome

def conductScan (call : Call) (region : String) (plan : JobPlan) (run : SourceRun)
    (st : JobState) : Conducted :=
  match scanThrough call region plan.job run plan.script.items st with
  | (st, some e) => ⟨finallyBlock call region plan run st false none, .error e⟩
  | (st, none) =>
    match plan.script.ending.regionError with
    | .error e => ⟨finallyBlock call region plan run st false none, .error e⟩
    | .ok regionError =>
      let s := finallyBlock call region plan run st regionError.isNone regionError
      ⟨s, .ok ⟨{ st with session := s }, regionError⟩⟩

def conductJob (start : StartRun) (call : Call) (region : String) (s : DbSession) (fresh : Uuid)
    (plan : JobPlan) : Conducted :=
  match start s (scopeOf call region plan.job) call.force call.jobId plan.script.startedAt
      plan.script.contended with
  | (s, none) => ⟨s, .ok ⟨.start s fresh, some lostScope⟩⟩
  | (s, some run) => conductScan call region plan run (.start s fresh)

/-- The loop of `runScan` is this one, without what an exception leaves. -/
theorem foldlM_scanItem (call : Call) (region : String) (job : ScanJob) (run : SourceRun)
    (items : List ScannedItem) (st : JobState) :
    items.foldlM (scanItem call region job run) st =
      match scanThrough call region job run items st with
      | (_, some e) => .error e
      | (st, none) => .ok st := by
  induction items generalizing st with
  | nil => rfl
  | cons item items ih =>
    rw [List.foldlM_cons, scanThrough]
    cases scanItem call region job run st item with
    | error e => rfl
    | ok st => exact ih st

theorem finishJob_eq (call : Call) (region : String) (plan : JobPlan) (run : SourceRun)
    (st : JobState) (regionError : Option String) :
    finishJob call region plan run st regionError =
      ⟨{ st with session := finallyBlock call region plan run st regionError.isNone regionError },
        regionError⟩ := by
  simp only [finishJob, finallyBlock]
  cases regionError <;> cases call.dryRun <;> rfl

theorem conductScan_outcome (call : Call) (region : String) (plan : JobPlan) (run : SourceRun)
    (st : JobState) :
    (conductScan call region plan run st).outcome = runScan call region plan run st := by
  rw [conductScan, runScan, foldlM_scanItem]
  rcases scanThrough call region plan.job run plan.script.items st with ⟨st', _ | e⟩
  · cases hend : plan.script.ending.regionError with
    | error e => rfl
    | ok regionError => simp only [finishJob_eq]
  · rfl

/-- What a call returns or raises is what `runRegionJob` says. -/
theorem conductJob_outcome (start : StartRun) (call : Call) (region : String) (s : DbSession)
    (fresh : Uuid) (plan : JobPlan) :
    (conductJob start call region s fresh plan).outcome =
      runRegionJob start call region s fresh plan := by
  rw [conductJob, runRegionJob]
  rcases start s (scopeOf call region plan.job) call.force call.jobId plan.script.startedAt
    plan.script.contended with ⟨s', _ | run⟩
  · rfl
  · exact conductScan_outcome call region plan run _

/-- Every item went through the loop, and then the generator ended. -/
def Exhausted (call : Call) (region : String) (plan : JobPlan) (run : SourceRun)
    (st : JobState) : Prop :=
  (scanThrough call region plan.job run plan.script.items st).2 = none ∧
    plan.script.ending.fails = false

/-- The `finally` block of an exhausted scan, or of one that is not. -/
theorem conductScan_session (call : Call) (region : String) (plan : JobPlan) (run : SourceRun)
    (st : JobState) :
    let st' := (scanThrough call region plan.job run plan.script.items st).1
    (Exhausted call region plan run st ∧ (conductScan call region plan run st).session =
        finallyBlock call region plan run st' true none) ∨
      (¬ Exhausted call region plan run st ∧ ∃ error,
        (conductScan call region plan run st).session =
          finallyBlock call region plan run st' false error) := by
  simp only [conductScan, Exhausted]
  rcases scanThrough call region plan.job run plan.script.items st with ⟨st', _ | e⟩
  · cases hend : plan.script.ending with
    | completed => exact .inl ⟨⟨rfl, rfl⟩, rfl⟩
    | clientError code text => exact .inr ⟨by simp [ScanEnd.fails], _, rfl⟩
    | botoCoreError cls text => exact .inr ⟨by simp [ScanEnd.fails], _, rfl⟩
    | raised e => exact .inr ⟨by simp [ScanEnd.fails], _, rfl⟩
  · exact .inr ⟨by simp, _, rfl⟩

/-! ## What the loop writes -/

/-- No write of a loop is about a run or an account, or retires a resource. -/
def isLoopWrite : Write → Bool
  | .resource r => r.retiredAt.isNone
  | .observation _ | .fact _ => true
  | _ => false

theorem sourceRuns_of_loop {s s' : DbSession} (h : WritesOnly isLoopWrite s s') :
    s'.working.sourceRuns = s.working.sourceRuns :=
  h.frame Store.sourceRuns fun w hw t => by cases w <;> first | rfl | cases hw

theorem accounts_of_loop {s s' : DbSession} (h : WritesOnly isLoopWrite s s') :
    s'.working.accounts = s.working.accounts :=
  h.frame Store.accounts fun w hw t => by cases w <;> first | rfl | cases hw

/-- A retired resource was retired before the loop. -/
theorem retired_of_loop {s s' : DbSession} (h : WritesOnly isLoopWrite s s') {r : Resource}
    (hr : r ∈ s'.working.resources) (hretired : r.retiredAt ≠ none) :
    r ∈ s.working.resources := by
  obtain ⟨ws, hws, rfl⟩ := h
  rw [Session.writes_working] at hr
  generalize s.working = t at hr ⊢
  induction ws generalizing t with
  | nil => exact hr
  | cons w ws ih =>
    rw [List.forall_mem_cons] at hws
    have hmem := ih hws.2 _ hr
    cases w with
    | resource r' =>
      rcases Table.mem_put.1 hmem with rfl | ⟨hmem, _⟩
      · exact absurd (Option.isNone_iff_eq_none.1 hws.1) hretired
      · exact hmem
    | observation o => exact hmem
    | fact row => exact hmem
    | _ => cases hws.1

theorem facts_loop (s : DbSession) (rows : List FactRow) :
    WritesOnly isLoopWrite s (s.writes (rows.map .fact)) := by
  refine ⟨rows.map .fact, fun w hw => ?_, rfl⟩
  obtain ⟨row, _, rfl⟩ := List.mem_map.1 hw
  rfl

theorem observation_loop (s : DbSession) (o : Observation) (run : Option Uuid) :
    WritesOnly isLoopWrite s (Observations.insertObservation s o run) := WritesOnly.write _ rfl

theorem upsertResource_loop {s s' : DbSession} {key : Resources.NaturalKey} {now : Micros}
    {fresh : Uuid} {r : Resource} (h : Resources.upsertResource s key now fresh = .ok (s', r)) :
    WritesOnly isLoopWrite s s' := by
  obtain ⟨rfl, _, hactive, _⟩ := Retirement.upsertResource_spec h
  exact WritesOnly.write _ (Option.isNone_iff_eq_none.2 hactive)

theorem describeItem_loop {call : Call} {job : ScanJob} {run : SourceRun} {st st' : JobState}
    {id : Uuid} {raw : Raw} {observedAt : Micros}
    (h : describeItem call job run st id raw observedAt = .ok st') :
    WritesOnly isLoopWrite st.session st'.session ∧ st'.resources = st.resources := by
  simp only [describeItem] at h
  split at h
  · cases h
    exact ⟨WritesOnly.refl _ _, rfl⟩
  · split at h
    · cases h
    · rename_i s inserted updated hfacts
      cases h
      obtain ⟨rows, rfl, _⟩ := upsertFacts_rows hfacts
      exact ⟨(observation_loop _ _ _).trans (facts_loop _ rows), rfl⟩

/-- An item that goes through: its resource is upserted, and what else it writes is described. -/
theorem scanItem_cases {call : Call} {region : String} {job : ScanJob} {run : SourceRun}
    {st st' : JobState} {item : ScannedItem}
    (h : scanItem call region job run st item = .ok st') :
    ∃ id s r, nativeIdForJob job.key (tagRegion region item.raw) = .ok id ∧
      Resources.upsertResource st.session (naturalKey call region job id) item.seenAt st.fresh =
        .ok (s, r) ∧
      describeItem call job run (st.upserted s r.id (tagRegion region item.raw)) r.id
        (tagRegion region item.raw) item.observedAt = .ok st' := by
  simp only [scanItem] at h
  split at h
  · cases h
  · rename_i id hid
    split at h
    · cases h
    · rename_i s r hupsert
      exact ⟨id, s, r, hid, hupsert, h⟩

theorem scanItem_loop {call : Call} {region : String} {job : ScanJob} {run : SourceRun}
    {st st' : JobState} {item : ScannedItem}
    (h : scanItem call region job run st item = .ok st') :
    WritesOnly isLoopWrite st.session st'.session ∧ st'.resources = st.resources + 1 := by
  obtain ⟨id, s, r, _, hupsert, hdescribe⟩ := scanItem_cases h
  obtain ⟨hwrites, hcount⟩ := describeItem_loop hdescribe
  exact ⟨(upsertResource_loop hupsert).trans hwrites, hcount⟩

/-! ### The facts of a job can be flushed -/

/-- The facts of a job are about the resource and the account it is given, each under its own key. -/
theorem job_facts_owned {job : ScanJob} (hjob : job ∈ jobRegistry) (id account : Uuid) (raw : Raw)
    (observedAt : Micros) :
    (∀ f ∈ job.facts id account raw observedAt,
      f.resourceId = some id ∧ f.accountId = some account) ∧
    ((job.facts id account raw observedAt).map Facts.keyOf).Nodup := by
  have hkeys : ((job.facts id account raw observedAt).map Fact.key).Nodup := by
    simp only [jobRegistry, List.mem_cons, List.not_mem_nil, or_false] at hjob
    rcases hjob with rfl | rfl | rfl | rfl <;>
      simp [rds, Rds.dbToFacts, ec2Volume, Ec2.volumeToFacts, ec2Snapshot, Ec2.snapshotToFacts,
        ec2Instance, Ec2.instanceToFacts, makeFact]
  have howned : ∀ f ∈ job.facts id account raw observedAt,
      f.resourceId = some id ∧ f.accountId = some account := by
    simp only [jobRegistry, List.mem_cons, List.not_mem_nil, or_false] at hjob
    rcases hjob with rfl | rfl | rfl | rfl <;>
      simp [rds, Rds.dbToFacts, ec2Volume, Ec2.volumeToFacts, ec2Snapshot, Ec2.snapshotToFacts,
        ec2Instance, Ec2.instanceToFacts, makeFact]
  refine ⟨howned, List.Nodup.of_map Facts.FactKey.key ?_⟩
  rw [List.map_map]
  exact hkeys

/-- What an item that raises leaves is writes of the loop too: no flush of a job's facts fails. -/
theorem itemRaised_loop {call : Call} {region : String} {job : ScanJob} (hjob : job ∈ jobRegistry)
    {run : SourceRun} {st : JobState} {item : ScannedItem}
    (haccount : (st.session.working.accounts.get? call.accountId).isSome = true) :
    WritesOnly isLoopWrite st.session (itemRaised call region job run st item).session := by
  simp only [itemRaised]
  split
  · exact WritesOnly.refl _ _
  · split
    · exact WritesOnly.refl _ _
    · rename_i s r hupsert
      have hseen := upsertResource_loop hupsert
      obtain ⟨rfl, _⟩ := Retirement.upsertResource_spec hupsert
      have hobserved := hseen.trans (observation_loop _
        (job.observation r.id (tagRegion region item.raw) item.observedAt) (some run.id))
      obtain ⟨howned, hkeys⟩ := job_facts_owned hjob r.id call.accountId (tagRegion region item.raw)
        item.observedAt
      split
      · rename_i e hfacts
        cases e with
        | multipleResultsFound => exact hobserved.trans (facts_loop _ _)
        | integrityError =>
          refine absurd hfacts (Facts.upsertFacts_flushes _ (fun f hf id hid => ?_) (fun f hf id hid => ?_)
            hkeys)
          · rw [(howned f hf).1] at hid
            cases hid
            refine Option.isSome_iff_exists.2 ⟨r, Table.get?_eq_some.2 ⟨?_, rfl⟩⟩
            exact Table.mem_put_self _ _
          · rw [(howned f hf).2] at hid
            cases hid
            rw [accounts_of_loop hobserved]
            exact haccount
      · exact hseen

/-! ### The resources of the items -/

/-- The resource of the item is there, last seen no earlier than `startedAt`. -/
def SeenSince (call : Call) (region : String) (job : ScanJob) (startedAt : Micros) (t : Store)
    (item : ScannedItem) : Prop :=
  ∃ id, nativeIdForJob job.key (tagRegion region item.raw) = .ok id ∧
    ∃ r ∈ t.resources, Resources.keyOf r = naturalKey call region job id ∧
      startedAt ≤ r.lastSeenAt

theorem scanItem_seen {call : Call} {region : String} {job : ScanJob} {run : SourceRun}
    {st st' : JobState} {item : ScannedItem} {startedAt : Micros} (hstarted : startedAt ≤ item.seenAt)
    (h : scanItem call region job run st item = .ok st') :
    SeenSince call region job startedAt st'.session.working item ∧
      ∀ other, SeenSince call region job startedAt st.session.working other →
        SeenSince call region job startedAt st'.session.working other := by
  obtain ⟨id, s, r, hid, hupsert, hdescribe⟩ := scanItem_cases h
  obtain ⟨rfl, hkey, _, hseen, hfrom⟩ := Retirement.upsertResource_spec hupsert
  have hput : st'.session.working.resources = st.session.working.resources.put r :=
    (Retirement.describeItem_frame hdescribe).1
  have hlate : startedAt ≤ r.lastSeenAt := hseen ▸ hstarted
  refine ⟨⟨id, hid, r, hput ▸ Table.mem_put_self _ _, hkey, hlate⟩, ?_⟩
  rintro other ⟨id', hid', y, hy, hykey, hylate⟩
  refine ⟨id', hid', ?_⟩
  rw [hput]
  by_cases hsame : y.id = r.id
  · -- the upsert has replaced the row by one of its key
    refine ⟨r, Table.mem_put_self _ _, ?_, hlate⟩
    rcases hfrom with ⟨r₀, hr₀, hr₀key, rfl⟩ | hnone
    · rw [← hykey, Table.eq_of_key hy hr₀ hsame]
      rfl
    · exact absurd hsame (hnone y hy).2
  · exact ⟨y, Table.mem_put.2 (.inr ⟨hy, hsame⟩), hykey, hylate⟩

/-- The loop: what it writes, and, when nothing raised, what it has counted and seen. -/
theorem scanThrough_spec {call : Call} {region : String} {job : ScanJob} (hjob : job ∈ jobRegistry)
    (run : SourceRun) {startedAt : Micros} {items : List ScannedItem}
    (htimes : ∀ item ∈ items, startedAt ≤ item.seenAt) (st : JobState)
    (haccount : (st.session.working.accounts.get? call.accountId).isSome = true) :
    let loop := scanThrough call region job run items st
    WritesOnly isLoopWrite st.session loop.1.session ∧
      (loop.2 = none → loop.1.resources = st.resources + items.length ∧
        (∀ item ∈ items, SeenSince call region job startedAt loop.1.session.working item) ∧
        ∀ other, SeenSince call region job startedAt st.session.working other →
          SeenSince call region job startedAt loop.1.session.working other) := by
  induction items generalizing st with
  | nil => exact ⟨WritesOnly.refl _ _, fun _ => ⟨rfl, List.forall_mem_nil _, fun _ h => h⟩⟩
  | cons item items ih =>
    rw [List.forall_mem_cons] at htimes
    rw [scanThrough]
    cases hitem : scanItem call region job run st item with
    | error e => exact ⟨itemRaised_loop hjob haccount, fun h => by cases h⟩
    | ok st₁ =>
      dsimp only
      obtain ⟨hwrites, hcount⟩ := scanItem_loop hitem
      obtain ⟨hself, hothers⟩ := scanItem_seen htimes.1 hitem
      have haccount₁ : (st₁.session.working.accounts.get? call.accountId).isSome = true := by
        rw [accounts_of_loop hwrites]
        exact haccount
      obtain ⟨hrest, hall⟩ := ih htimes.2 st₁ haccount₁
      refine ⟨hwrites.trans hrest, fun hnone => ?_⟩
      obtain ⟨hlength, hseen, hkept⟩ := hall hnone
      refine ⟨?_, List.forall_mem_cons.2 ⟨hkept item hself, hseen⟩,
        fun other h => hkept other (hothers other h)⟩
      rw [List.length_cons]
      omega

/-! ## The row of the run -/

/-- What the row of a run says of its scan, between the stores `before` and `after` it. -/
structure Honest (call : Call) (region : String) (plan : JobPlan) (exhausted : Prop)
    (before after : Store) (row : SourceRun) : Prop where
  terminal : row.status = .success ∨ row.status = .failed
  success_iff : row.status = .success ↔ exhausted
  found : row.status = .success → row.resourcesFound = some plan.script.items.length
  seen : row.status = .success → ∀ item ∈ plan.script.items,
    SeenSince call region plan.job row.startedAt after item
  unswept : row.status ≠ .success → ∀ r ∈ after.resources, r.retiredAt ≠ none →
    r ∈ before.resources

/-- The `finally` block of a scan that is not exhausted finishes the run and sweeps nothing. -/
theorem finallyBlock_failed {call : Call} {region : String} {plan : JobPlan} {run : SourceRun}
    {st : JobState} (hget : st.session.working.sourceRuns.get? run.id = some run)
    (error : Option String) :
    finallyBlock call region plan run st false error = st.session.write (.sourceRun
      (SourceRuns.finished run .failed (some st.resources) error plan.script.finishedAt)) := by
  simp only [finallyBlock, SourceRuns.finishRun_eq hget]
  rfl

/-- The one of an exhausted scan finishes it too; the sweep keeps what was seen. -/
theorem finallyBlock_success (call : Call) (region : String) (plan : JobPlan) {run : SourceRun}
    {st : JobState} (hget : st.session.working.sourceRuns.get? run.id = some run) :
    let row := SourceRuns.finished run .success (some st.resources) none plan.script.finishedAt
    let s' := finallyBlock call region plan run st true none
    row ∈ s'.working.sourceRuns ∧ ∀ startedAt item,
      SeenSince call region plan.job startedAt st.session.working item →
        SeenSince call region plan.job startedAt s'.working item := by
  intro row s'
  have hs' : s' = if !call.dryRun then (Resources.retireStaleResources (st.session.write
      (.sourceRun row)) (scopeOf call region plan.job) plan.script.retiredAt).1
      else st.session.write (.sourceRun row) := by
    simp only [s', finallyBlock, SourceRuns.finishRun_eq hget]
    cases call.dryRun <;> rfl
  have hrow : row ∈ (st.session.write (.sourceRun row)).working.sourceRuns :=
    Table.mem_put_self _ _
  rw [hs']
  cases call.dryRun
  · let site : Retirement.Site := ⟨call.accountId, region, plan.job⟩
    have hsweep : (Resources.retireStaleResources (st.session.write (.sourceRun row))
        (scopeOf call region plan.job) plan.script.retiredAt).1.working =
        Retirement.sweep site plan.script.retiredAt (st.session.write (.sourceRun row)).working :=
      Retirement.retireStaleResources_working _ _ _
    simp only [Bool.not_false, if_true, hsweep]
    refine ⟨hrow, ?_⟩
    rintro startedAt item ⟨id, hid, r, hr, hkey, hlate⟩
    have hmem : r ∈ (st.session.write (.sourceRun row)).working.resources := hr
    obtain ⟨r', hr', hsame, _⟩ := Retirement.sweep_kept site plan.script.retiredAt hmem
    exact ⟨id, hid, r', hr', hsame.key.trans hkey, Int.le_trans hlate hsame.lastSeenAt⟩
  · exact ⟨hrow, fun _ _ h => h⟩

/-- A run that is started is the row of its scope, whose account exists. -/
theorem startRun_begun {s s₁ : DbSession} {scope : Scope} {force contended : Bool}
    {jobId : Option Uuid} {now : Micros} {run : SourceRun}
    (h : startRun s scope force jobId now contended = (s₁, some run)) :
    run.startedAt = now ∧ s₁.working.sourceRuns.get? run.id = some run ∧
      (s₁.working.accounts.get? scope.accountId).isSome = true ∧
      s₁.working.resources = s.working.resources := by
  obtain ⟨s₀, hs₀, _, hresources, _⟩ := Retirement.forced_spec s scope force now
  simp only [startRun, hs₀] at h
  split at h
  · rename_i hinsertable
    rw [Bool.and_eq_true, SourceRuns.insertable_iff] at hinsertable
    cases h
    exact ⟨rfl, Table.get?_eq_some.2 ⟨Table.mem_put_self _ _, rfl⟩, hinsertable.1.1, hresources⟩
  · cases h

/-- The row of a run that is started ends terminal, and says success exactly when its scan was
exhausted. -/
theorem conductJob_honest {call : Call} {region : String} {s s₁ : DbSession} {fresh : Uuid}
    {plan : JobPlan} {run : SourceRun} (hjob : plan.job ∈ jobRegistry)
    (hclock : (Retirement.times plan.script).Pairwise (· ≤ ·))
    (hstart : startRun s (scopeOf call region plan.job) call.force call.jobId plan.script.startedAt
      plan.script.contended = (s₁, some run)) :
    ∃ row ∈ (conductJob startRun call region s fresh plan).session.working.sourceRuns,
      row.id = run.id ∧ row.startedAt = plan.script.startedAt ∧
        Honest call region plan (Exhausted call region plan run (.start s₁ fresh)) s.working
          (conductJob startRun call region s fresh plan).session.working row := by
  obtain ⟨hstarted, hrun, haccount, hresources⟩ := startRun_begun hstart
  have htimes : ∀ item ∈ plan.script.items, plan.script.startedAt ≤ item.seenAt := by
    intro item hitem
    rw [Retirement.times, List.cons_append, List.pairwise_cons] at hclock
    exact hclock.1 _ (List.mem_append_left _ (List.mem_map_of_mem hitem))
  have hconduct : conductJob startRun call region s fresh plan =
      conductScan call region plan run (.start s₁ fresh) := by
    simp only [conductJob, hstart]
  obtain ⟨hwrites, hloop⟩ := scanThrough_spec hjob run htimes (.start s₁ fresh) haccount
  rw [hconduct]
  set st := (scanThrough call region plan.job run plan.script.items (.start s₁ fresh)).1
  have hget : st.session.working.sourceRuns.get? run.id = some run := by
    rw [sourceRuns_of_loop hwrites]
    exact hrun
  rcases conductScan_session call region plan run (.start s₁ fresh) with
    ⟨hexhausted, hsession⟩ | ⟨hnot, error, hsession⟩
  · obtain ⟨hcount, hseen, _⟩ := hloop hexhausted.1
    obtain ⟨hrow, hkept⟩ := finallyBlock_success call region plan hget
    rw [hsession]
    refine ⟨_, hrow, rfl, hstarted, .inl rfl, iff_of_true rfl hexhausted, fun _ => ?_, fun _ item h =>
      ?_, fun h => absurd rfl h⟩
    · have hzero : (JobState.start s₁ fresh).resources + plan.script.items.length =
          plan.script.items.length := Nat.zero_add _
      exact congrArg some (hcount.trans hzero)
    · exact hkept _ item (hstarted ▸ hseen item h)
  · rw [hsession, finallyBlock_failed hget]
    have hfailed : RunStatus.failed ≠ .success := by simp
    refine ⟨_, Table.mem_put_self _ _, rfl, hstarted, .inr rfl, iff_of_false hfailed hnot,
      fun h => absurd h hfailed, fun h => absurd h hfailed, fun _ r hr hretired => ?_⟩
    rw [← hresources]
    exact retired_of_loop hwrites hr hretired

/-! ## What the correlation pass is given -/

/-- A job that returns without an error has exhausted its scan. -/
theorem exhausted_of_no_error {call : Call} {region : String} {s : DbSession} {fresh : Uuid}
    {plan : JobPlan} {out : JobOutcome}
    (h : runRegionJob startRun call region s fresh plan = .ok out) (herror : out.error = none) :
    ∃ s₁ run, startRun s (scopeOf call region plan.job) call.force call.jobId plan.script.startedAt
        plan.script.contended = (s₁, some run) ∧
      Exhausted call region plan run (.start s₁ fresh) := by
  rw [runRegionJob] at h
  split at h
  · cases h
    cases herror
  · rename_i s₁ run hstart
    refine ⟨s₁, run, hstart, ?_⟩
    rw [runScan, foldlM_scanItem] at h
    rw [Exhausted]
    rcases hloop : scanThrough call region plan.job run plan.script.items (.start s₁ fresh) with
      ⟨st, _ | e⟩
    · rw [hloop] at h
      dsimp only at h
      split at h
      · cases h
      · rename_i regionError hend
        cases h
        have hnone : regionError = none := herror
        have hfails := regionError_isSome hend
        rw [hnone] at hfails
        exact ⟨rfl, hfails.symm⟩
    · rw [hloop] at h
      cases h

/-- `items` are what a job of the region with this key returned, at the end of a scan that it had
exhausted. -/
def HandedOn (call : Call) (region : String) (c : CollectState) (plans : List JobPlan)
    (key : String) (items : List Ec2.Item) : Prop :=
  ∃ done plan rest rs s₁ run out, plans = done ++ plan :: rest ∧ plan.job.key = key ∧
    done.foldlM (runJob startRun call region) ⟨c, false, .empty⟩ = .ok rs ∧
    startRun rs.collect.session (scopeOf call region plan.job) call.force call.jobId
      plan.script.startedAt plan.script.contended = (s₁, some run) ∧
    Exhausted call region plan run (.start s₁ rs.collect.fresh) ∧
    (conductJob startRun call region rs.collect.session rs.collect.fresh plan).outcome = .ok out ∧
    out.error = none ∧ out.state.items = items

theorem HandedOn.append {call : Call} {region : String} {c : CollectState} {plans : List JobPlan}
    {key : String} {items : List Ec2.Item} (h : HandedOn call region c plans key items)
    (more : List JobPlan) : HandedOn call region c (plans ++ more) key items := by
  obtain ⟨done, plan, rest, rs, s₁, run, out, rfl, hrest⟩ := h
  exact ⟨done, plan, rest ++ more, rs, s₁, run, out, by simp, hrest⟩

/-- The last job of a region leaves the items of the others, and adds its own if it ended without
an error. -/
theorem runJobs_handed {call : Call} {region : String} {plans : List JobPlan} {c : CollectState}
    {rs : RegionState}
    (h : plans.foldlM (runJob startRun call region) ⟨c, false, .empty⟩ = .ok rs) {key : String}
    {items : List Ec2.Item} (hitems : rs.itemsByJob.get? key = some items) :
    HandedOn call region c plans key items := by
  induction plans using List.reverseRecOn generalizing rs with
  | nil =>
    cases h
    cases hitems
  | append_singleton plans plan ih =>
    rw [List.foldlM_append] at h
    cases hfold : plans.foldlM (runJob startRun call region) ⟨c, false, .empty⟩ with
    | error e =>
      rw [hfold] at h
      cases h
    | ok rs₁ =>
      rw [hfold] at h
      obtain ⟨rs₂, hjob, hlast⟩ := Loop.foldlM_cons_ok.1 h
      cases hlast
      rw [runJob] at hjob
      split at hjob
      · cases hjob
      · rename_i out hout
        cases hjob
        rw [addOutcome] at hitems
        split at hitems
        · exact (ih hfold hitems).append [plan]
        · rename_i herror
          rw [Dict.get?_set] at hitems
          by_cases hkey : key = plan.job.key
          · rw [if_pos hkey] at hitems
            obtain ⟨s₁, run, hstart, hexhausted⟩ := exhausted_of_no_error hout herror
            refine ⟨plans, plan, [], rs₁, s₁, run, out, rfl, hkey.symm, hfold, hstart, hexhausted,
              ?_, herror, Option.some.inj hitems⟩
            rw [conductJob_outcome, hout]
          · rw [if_neg hkey] at hitems
            exact (ih hfold hitems).append [plan]

/-- Whatever a scan yields and however it ends, on any store: the row of its run ends terminal, and
with success exactly when the scan was exhausted; and the correlation pass of a region is given
nothing but what exhausted scans of it returned. -/
theorem success_iff_exhausted (call : Call) (region : String) :
    (∀ (s : DbSession) (fresh : Uuid) (plan : JobPlan), plan.job ∈ jobRegistry →
      (Retirement.times plan.script).Pairwise (· ≤ ·) → ∀ (s₁ : DbSession) (run : SourceRun),
        startRun s (scopeOf call region plan.job) call.force call.jobId plan.script.startedAt
            plan.script.contended = (s₁, some run) →
          ∃ row ∈ (conductJob startRun call region s fresh plan).session.working.sourceRuns,
            row.id = run.id ∧ row.startedAt = plan.script.startedAt ∧
              Honest call region plan (Exhausted call region plan run (.start s₁ fresh)) s.working
                (conductJob startRun call region s fresh plan).session.working row) ∧
      ∀ (plans : List JobPlan) (c : CollectState) (rs : RegionState),
        plans.foldlM (runJob startRun call region) ⟨c, false, .empty⟩ = .ok rs →
          ∀ (key : String) (items : List Ec2.Item), rs.itemsByJob.get? key = some items →
            HandedOn call region c plans key items :=
  ⟨fun _ _ _ hjob hclock _ _ hstart => conductJob_honest hjob hclock hstart,
    fun _ _ _ h _ _ hitems => runJobs_handed h hitems⟩

/-! ## A scan of one database -/

def oneAccount : Store := { Store.empty with accounts := Table.empty.put ⟨0, "123456789012", none⟩ }

def nightly : Call := ⟨0, false, false, none⟩

/-- The scan yields a database and then ends as `ending` says. -/
def oneDatabase (ending : ScanEnd) : JobPlan :=
  ⟨rds, ⟨false, 10, [⟨[("DBInstanceArn", .str "arn:db-1")], 11, 12⟩], ending, 13, 14⟩⟩

def startedRow : SourceRun :=
  SourceRuns.newRun oneAccount (scopeOf nightly "eu-west-1" rds) none 10

def atOneAccount : CollectState := ⟨Session.begin oneAccount, 0, 0, 0, 0, [], [], 0⟩

/-- A generator that raises after its first item leaves a failed run behind; one that ends after it
hands the item on. -/
theorem one_database_scanned :
    (∃ row ∈ (conductJob startRun nightly "eu-west-1" (Session.begin oneAccount) 0
        (oneDatabase (.raised ⟨"RuntimeError", "boom"⟩))).session.working.sourceRuns,
      row.id = 0 ∧ row.status = .failed) ∧
    ∃ items, HandedOn nightly "eu-west-1" atOneAccount [oneDatabase .completed] "rds" items := by
  constructor
  · have hstart : startRun (Session.begin oneAccount) (scopeOf nightly "eu-west-1" rds) false none 10
        false = ((Session.begin oneAccount).write (.sourceRun startedRow), some startedRow) := rfl
    have hclock : (Retirement.times
        (oneDatabase (.raised ⟨"RuntimeError", "boom"⟩)).script).Pairwise (· ≤ ·) := by decide
    obtain ⟨row, hrow, hid, _, honest⟩ := (success_iff_exhausted nightly "eu-west-1").1
      (Session.begin oneAccount) 0 (oneDatabase (.raised ⟨"RuntimeError", "boom"⟩))
      List.mem_cons_self hclock _ startedRow hstart
    refine ⟨row, hrow, hid, honest.terminal.resolve_left fun hsuccess => ?_⟩
    have hexhausted := honest.success_iff.1 hsuccess
    cases hexhausted.2
  · have hitems : (([oneDatabase .completed].foldlM (runJob startRun nightly "eu-west-1")
        ⟨atOneAccount, false, .empty⟩).toOption.bind (·.itemsByJob.get? "rds")).isSome = true := by
      decide +kernel
    obtain ⟨items, hitems⟩ := Option.isSome_iff_exists.1 hitems
    obtain ⟨rs, hrs, hget⟩ := Option.bind_eq_some_iff.1 hitems
    exact ⟨items, (success_iff_exhausted nightly "eu-west-1").2 _ _ rs
      (Retirement.eq_ok_of_toOption hrs) "rds" items hget⟩

end Collector

end Constat
