import Constat.Quiescence

/-!
# TenantWorkers

The collect workers with several tenants. A session sees and writes the rows of the tenant it is
bound to: `get_db` binds the tenant of the principal, so a job is created under it; the sessions of
the worker are bound to `settings.default_tenant_id`, whoever has asked for the job, and a
`WorkItem` does not say who has.

* `workerStepUnder` — the step of a worker whose sessions are bound to a tenant: the step of
                      `Evaluation` in the rows of that tenant.
* `Faithful`        — an item is looked up, collected and evaluated under the tenant of its request
                      only, and is not dropped.
* `faithful_iff`    — that is so exactly as long as the workers take up items of the default tenant.
-/

namespace Constat

namespace TenantWorkers

open Trace CollectJobs Collector Evaluation

/-! ## The system -/

structure TenantRequest extends Request where
  tenant : Uuid

/-- What a worker has done with a message, and under which tenant. -/
inductive Deed where
  | did (m : Message) (tenant : Uuid)
  | dropped (m : Message)
deriving DecidableEq

/-- The rows of each tenant, and the queue and the workers that they share. -/
structure State where
  stores : Uuid → Store
  evaluations : Uuid → Dict Uuid EvaluationStatus
  requests : List TenantRequest
  nextJob : Uuid
  serial : Nat
  queue : List Message
  workers : Dict Nat (Message × Phase)
  log : List Deed

def start : State := ⟨fun _ => .empty, fun _ => .empty, [], 0, 0, [], .empty, []⟩

inductive Event where
  | request (tenant : Uuid) (actor : String) (targets : List TargetAccount) (force dryRun : Bool)
      (reached : Nat)
  | receive (worker : Nat) (serial : Nat)
  | worker (worker : Nat) (act : Act)
  | deadLetter (serial : Nat)
  | crash (worker : Nat)
  | purge (cutoff : Micros)
  | other (tenant : Uuid) (a : Aside)

/-- What a session bound to the tenant sees, with the queue and the workers. -/
def view (s : State) (tenant : Uuid) : Evaluation.State where
  store := s.stores tenant
  requests := []
  serial := s.serial
  queue := s.queue
  workers := s.workers
  evaluation := s.evaluations tenant
  log := []

/-- The steps of a worker that open a session, and the drop of an orphan. -/
def deedsOf (s : State) (tenant : Uuid) (m : Message) : Phase → Act → List Deed
  | .received, .lookup =>
    match getJob (s.stores tenant) m.item.jobId with
    | none => [.did m tenant, .dropped m]
    | some _ => [.did m tenant]
  | .admitted, .collect _ | .acked, .check | .complete, .claim | .claimed (_ :: _) _, .rule _
  | .claimed [] _, .finish => [.did m tenant]
  | _, _ => []

def workerStepUnder (fp : Arith) (tenant : Uuid) (s : State) (w : Nat) (m : Message)
    (phase : Phase) (act : Act) : State :=
  let v := workerStep fp (view s tenant) w m phase act
  { s with
    stores := Function.update s.stores tenant v.store
    evaluations := Function.update s.evaluations tenant v.evaluation
    queue := v.queue
    workers := v.workers
    log := s.log ++ deedsOf s tenant m phase act }

/-- The row of the job is one of its principal's tenant; its id is one that no tenant has. -/
def accept (s : State) (tenant : Uuid) (actor : String) (targets : List TargetAccount)
    (h : targets ≠ []) (force dryRun : Bool) (reached : Nat) : State :=
  let job : CollectJobRow := { newJob (s.stores tenant) actor targets with jobId := s.nextJob }
  let q : TenantRequest := ⟨⟨job, targets, force, dryRun, s.serial, h, rfl⟩, tenant⟩
  { s with
    stores := Function.update s.stores tenant (applyWrite (s.stores tenant) (.collectJob job))
    requests := s.requests ++ [q]
    nextJob := s.nextJob + 1
    serial := s.serial + q.items.length
    queue := s.queue ++ q.messages.take reached }

def step (fp : Arith) (default : Uuid) (s : State) : Event → State
  | .request tenant actor targets force dryRun reached =>
    if h : targets = [] then s else accept s tenant actor targets h force dryRun reached
  | .receive worker serial =>
    match s.workers.get? worker, s.queue.find? (·.serial = serial) with
    | none, some m => { s with workers := s.workers.set worker (m, .received) }
    | _, _ => s
  | .worker worker act =>
    match s.workers.get? worker with
    | none => s
    | some (m, phase) => workerStepUnder fp default s worker m phase act
  | .deadLetter serial => { s with queue := s.queue.filter fun m => m.serial ≠ serial }
  | .crash worker => { s with workers := s.workers.pop worker }
  | .purge cutoff =>
    { s with stores := Function.update s.stores default (purgeRuns (s.stores default) cutoff) }
  | .other tenant a => { s with stores := Function.update s.stores tenant (a.act (s.stores tenant)) }

/-! ## What a tenant is promised -/

structure Faithful (s : State) : Prop where
  bound : ∀ q ∈ s.requests, ∀ m ∈ q.messages, ∀ tenant, .did m tenant ∈ s.log → tenant = q.tenant
  kept : ∀ q ∈ s.requests, ∀ m ∈ q.messages, .dropped m ∉ s.log
  runs : ∀ q ∈ s.requests, ∀ tenant, ∀ r ∈ (s.stores tenant).sourceRuns,
    r.jobId = some q.job.jobId → tenant = q.tenant
  evaluations : ∀ q ∈ s.requests, ∀ tenant,
    (s.evaluations tenant).get? q.job.jobId ≠ none → tenant = q.tenant

/-- A worker takes up an item of the default tenant only. -/
def Good (default : Uuid) (s : State) : Event → Prop
  | .worker w .lookup => ∀ e ∈ s.workers.get? w, e.2 = .received →
    ∀ q ∈ s.requests, e.1 ∈ q.messages → q.tenant = default
  | _ => True

/-! ## The invariant -/

structure Inv (default : Uuid) (s : State) : Prop where
  ended : ∀ tenant, Ended (s.stores tenant)
  rows : ∀ tenant, ∀ row ∈ (s.stores tenant).collectJobs,
    ∃ q ∈ s.requests, q.tenant = tenant ∧ q.job = row
  jobs : ∀ q ∈ s.requests, getJob (s.stores q.tenant) q.job.jobId = some q.job
  lt_next : ∀ q ∈ s.requests, q.job.jobId < s.nextJob
  unique : ∀ q ∈ s.requests, ∀ q' ∈ s.requests, q.job.jobId = q'.job.jobId → q = q'
  queued : ∀ m ∈ s.queue, ∃ q ∈ s.requests, m ∈ q.messages
  held : ∀ w m p, s.workers.get? w = some (m, p) →
    ∃ q ∈ s.requests, m ∈ q.messages ∧ (p ≠ .received → q.tenant = default)
  did : ∀ m tenant, .did m tenant ∈ s.log →
    tenant = default ∧ ∃ q ∈ s.requests, m ∈ q.messages
  dropped : ∀ m, .dropped m ∈ s.log →
    .did m default ∈ s.log ∧ ∃ q ∈ s.requests, m ∈ q.messages ∧ q.tenant ≠ default
  runs : ∀ tenant, ∀ r ∈ (s.stores tenant).sourceRuns, ∀ job, r.jobId = some job →
    ∃ q ∈ s.requests, q.job.jobId = job ∧ q.tenant = tenant
  evaluations : ∀ tenant job, (s.evaluations tenant).get? job ≠ none →
    ∃ q ∈ s.requests, q.job.jobId = job ∧ q.tenant = tenant

/-- What has been done, has been done for the default tenant. -/
def Clean (default : Uuid) (s : State) : Prop :=
  ∀ m tenant, .did m tenant ∈ s.log → ∀ q ∈ s.requests, m ∈ q.messages → q.tenant = default

theorem Inv.faithful_clean {default : Uuid} {s : State} (h : Inv default s) :
    Faithful s ↔ Clean default s := by
  constructor
  · intro hs m tenant hdid q hq hm
    exact (hs.bound q hq m hm tenant hdid).symm.trans (h.did m tenant hdid).1
  · intro hs
    refine ⟨fun q hq m hm tenant hdid => ?_, fun q hq m hm hdropped => ?_,
      fun q hq tenant r hr hjob => ?_, fun q hq tenant hne => ?_⟩
    · exact (h.did m tenant hdid).1.trans (hs m tenant hdid q hq hm).symm
    · obtain ⟨hdid, q', hq', hm', hne⟩ := h.dropped m hdropped
      exact hne (hs m default hdid q' hq' hm')
    · obtain ⟨q', hq', hid, htenant⟩ := h.runs tenant r hr _ hjob
      rw [h.unique q' hq' q hq hid] at htenant
      exact htenant.symm
    · obtain ⟨q', hq', hid, htenant⟩ := h.evaluations tenant _ hne
      rw [h.unique q' hq' q hq hid] at htenant
      exact htenant.symm

/-! ## What a worker changes in the rows it sees -/

/-- `v'` is `v` after a step of a worker that holds `m`: the job of `m` is the only one it knows. -/
structure Worked (v v' : Evaluation.State) (w : Nat) (m : Message) (phase : Phase) : Prop where
  ended : Ended v'.store
  jobs : v'.store.collectJobs = v.store.collectJobs
  runs : ∀ r ∈ v'.store.sourceRuns, r.jobId ≠ none →
    r ∈ v.store.sourceRuns ∨ (r.jobId = some m.item.jobId ∧ phase ≠ .received)
  evaluation : ∀ job, v'.evaluation.get? job ≠ none →
    v.evaluation.get? job ≠ none ∨ (job = m.item.jobId ∧ phase ≠ .received)
  queue : ∀ x ∈ v'.queue, x ∈ v.queue
  workers : ∀ w' x p, v'.workers.get? w' = some (x, p) → v.workers.get? w' = some (x, p) ∨
    (x = m ∧ (phase ≠ .received ∨ (getJob v.store m.item.jobId).isSome))

section

variable {v v' : Evaluation.State} {w : Nat} {m : Message} {phase : Phase}

theorem held_pop {d : Dict Nat (Message × Phase)} {K : Prop} :
    ∀ w' x p, (d.pop w).get? w' = some (x, p) → d.get? w' = some (x, p) ∨ (x = m ∧ K) := by
  intro w' x p hx
  rw [Dict.get?_pop] at hx
  split at hx
  · cases hx
  · exact .inl hx

theorem held_set {d : Dict Nat (Message × Phase)} {p₀ : Phase} {K : Prop} (hk : K) :
    ∀ w' x p, (d.set w (m, p₀)).get? w' = some (x, p) →
      d.get? w' = some (x, p) ∨ (x = m ∧ K) := by
  intro w' x p hx
  rw [Dict.get?_set] at hx
  split at hx
  · cases hx
    exact .inr ⟨rfl, hk⟩
  · exact .inl hx

theorem workerStep_worked (fp : Arith) (h : Ended v.store) (act : Act) :
    Worked v (workerStep fp v w m phase act) w m phase := by
  have hruns : ∀ r ∈ v.store.sourceRuns, r.jobId ≠ none →
      r ∈ v.store.sourceRuns ∨ (r.jobId = some m.item.jobId ∧ phase ≠ .received) :=
    fun _ hr _ => .inl hr
  have hevaluation : ∀ job, v.evaluation.get? job ≠ none →
      v.evaluation.get? job ≠ none ∨ (job = m.item.jobId ∧ phase ≠ .received) :=
    fun _ hne => .inl hne
  have hqueue : ∀ x ∈ v.queue, x ∈ v.queue := fun _ hx => hx
  have hset : phase ≠ .received → ∀ status job,
      (v.evaluation.set m.item.jobId status).get? job ≠ none →
        v.evaluation.get? job ≠ none ∨ (job = m.item.jobId ∧ phase ≠ .received) := by
    intro hphase status job hne
    rw [Dict.get?_set] at hne
    split at hne
    · rename_i hjob
      exact .inr ⟨hjob, hphase⟩
    · exact .inl hne
  have hcollected : phase ≠ .received → ∀ world u r, processItem m.item world v.store = (u, r) →
      Ended u ∧ u.collectJobs = v.store.collectJobs ∧ ∀ r ∈ u.sourceRuns, r.jobId ≠ none →
        r ∈ v.store.sourceRuns ∨ (r.jobId = some m.item.jobId ∧ phase ≠ .received) := by
    intro hphase world u r hout
    have hkept := processItem_kept m.item world h
    rw [hout] at hkept
    refine ⟨hkept.ended, hkept.jobs, fun r hr hne => ?_⟩
    by_cases hown : r.jobId = some m.item.jobId
    · exact .inr ⟨hown, hphase⟩
    · exact .inl ((hkept.others r hne hown).1 hr)
  simp only [workerStep]
  split
  · split
    · exact ⟨h, rfl, hruns, hevaluation, fun _ => mem_settle, held_pop⟩
    · rename_i hjob
      exact ⟨h, rfl, hruns, hevaluation, hqueue, held_set (.inr (by rw [hjob]; rfl))⟩
  · exact ⟨h, rfl, hruns, hevaluation, hqueue, held_pop⟩
  · exact ⟨h, rfl, hruns, hevaluation, hqueue, held_pop⟩
  · exact ⟨h, rfl, hruns, hevaluation, hqueue, held_pop⟩
  · split
    · rename_i hout
      obtain ⟨hended, hjobs, hnew⟩ := hcollected (by simp) _ _ _ hout
      exact ⟨hended, hjobs, hnew, hevaluation, hqueue, held_set (.inl (by simp))⟩
    · rename_i hout
      obtain ⟨hended, hjobs, hnew⟩ := hcollected (by simp) _ _ _ hout
      exact ⟨hended, hjobs, hnew, hevaluation, hqueue, held_pop⟩
  · exact ⟨h, rfl, hruns, hevaluation, fun _ => mem_settle, held_set (.inl (by simp))⟩
  · split
    · exact ⟨h, rfl, hruns, hevaluation, hqueue, held_pop⟩
    · split
      · exact ⟨h, rfl, hruns, hevaluation, hqueue, held_set (.inl (by simp))⟩
      · exact ⟨h, rfl, hruns, hevaluation, hqueue, held_pop⟩
  · split
    · exact ⟨h, rfl, hruns, hevaluation, hqueue, held_pop⟩
    · exact ⟨h, rfl, hruns, hset (by simp) _, hqueue, held_set (.inl (by simp))⟩
  · rename_i rule rules failed world
    have hsame := runRule_sameJobs fp world rule v.store
    refine ⟨fun r hr => h r (hsame.sourceRuns ▸ hr), hsame.collectJobs, fun r hr _ => ?_,
      hevaluation, hqueue, held_set (.inl (by simp))⟩
    exact .inl (hsame.sourceRuns ▸ hr)
  · exact ⟨h, rfl, hruns, hset (by simp) _, hqueue, held_pop⟩
  · exact ⟨h, rfl, hruns, hevaluation, hqueue, held_pop⟩
  · exact ⟨h, rfl, hruns, hevaluation, hqueue, held_pop⟩
  · exact ⟨h, rfl, hruns, hevaluation, hqueue, held_pop⟩
  · exact ⟨h, rfl, hruns, hevaluation, hqueue, fun _ _ _ hx => .inl hx⟩

end

/-! ## Steps -/

section

variable {fp : Arith} {default : Uuid} {s : State}

theorem mem_deedsOf {tenant : Uuid} {m : Message} {phase : Phase} {act : Act} {d : Deed}
    (hd : d ∈ deedsOf s tenant m phase act) : d = .did m tenant ∨ (d = .dropped m ∧
      getJob (s.stores tenant) m.item.jobId = none ∧
        .did m tenant ∈ deedsOf s tenant m phase act) := by
  simp only [deedsOf] at hd ⊢
  split at hd
  · split at hd
    · rename_i hnone
      rcases List.mem_cons.1 hd with rfl | hd
      · exact .inl rfl
      · exact .inr ⟨List.mem_singleton.1 hd, hnone, by simp⟩
    · exact .inl (List.mem_singleton.1 hd)
  · exact .inl (List.mem_singleton.1 hd)
  · exact .inl (List.mem_singleton.1 hd)
  · exact .inl (List.mem_singleton.1 hd)
  · exact .inl (List.mem_singleton.1 hd)
  · exact .inl (List.mem_singleton.1 hd)
  · cases hd

/-- The request of a message is known by the message. -/
theorem Inv.request_unique (h : Inv default s) {m : Message} {q q' : TenantRequest}
    (hq : q ∈ s.requests) (hq' : q' ∈ s.requests) (hm : m ∈ q.messages) (hm' : m ∈ q'.messages) :
    q = q' :=
  h.unique q hq q' hq' ((jobId_of_mem_messages hm).symm.trans (jobId_of_mem_messages hm'))

/-- Only the tenant of a request has the row of its job. -/
theorem Inv.tenant_of_job (h : Inv default s) {q : TenantRequest} (hq : q ∈ s.requests)
    {tenant : Uuid} (hjob : getJob (s.stores tenant) q.job.jobId ≠ none) : q.tenant = tenant := by
  obtain ⟨row, hrow⟩ := Option.ne_none_iff_exists'.1 hjob
  obtain ⟨hmem, hid⟩ := Table.get?_eq_some.1 hrow
  obtain ⟨q', hq', htenant, hjob'⟩ := h.rows tenant row hmem
  rw [← htenant, h.unique q hq q' hq' (by rw [hjob', hid])]

theorem Inv.workerStepUnder {w : Nat} {m : Message} {phase : Phase} (h : Inv default s)
    (hheld : s.workers.get? w = some (m, phase)) (act : Act) :
    Inv default (workerStepUnder fp default s w m phase act) := by
  have hw : Worked (view s default) (workerStep fp (view s default) w m phase act) w m phase :=
    workerStep_worked fp (h.ended default) act
  obtain ⟨q, hq, hm, hmine⟩ := h.held w m phase hheld
  have hid := jobId_of_mem_messages hm
  have hstore : ∀ tenant, (TenantWorkers.workerStepUnder fp default s w m phase act).stores tenant =
      if tenant = default then (workerStep fp (view s default) w m phase act).store
      else s.stores tenant := fun tenant => by
    simp only [TenantWorkers.workerStepUnder, Function.update_apply]
  have hjobs : ∀ tenant, ((TenantWorkers.workerStepUnder fp default s w m phase act).stores
      tenant).collectJobs = (s.stores tenant).collectJobs := by
    intro tenant
    rw [hstore]
    split
    · rename_i heq
      rw [heq]
      exact hw.jobs
    · rfl
  constructor
  · intro tenant
    rw [hstore]
    split
    · exact hw.ended
    · exact h.ended tenant
  · intro tenant
    rw [hjobs]
    exact h.rows tenant
  · intro q' hq'
    rw [getJob, hjobs]
    exact h.jobs q' hq'
  · exact h.lt_next
  · exact h.unique
  · exact fun x hx => h.queued x (hw.queue x hx)
  · intro w' x p hx
    rcases hw.workers w' x p hx with hold | ⟨rfl, hknown⟩
    · exact h.held w' x p hold
    · refine ⟨q, hq, hm, fun _ => ?_⟩
      rcases hknown with hphase | hfound
      · exact hmine hphase
      · refine h.tenant_of_job hq fun hnone => ?_
        rw [hid] at hfound
        rw [view, hnone] at hfound
        cases hfound
  · intro x tenant hdid
    rcases List.mem_append.1 hdid with hold | hnew
    · exact h.did x tenant hold
    · rcases mem_deedsOf hnew with heq | ⟨heq, _⟩
      · cases heq
        exact ⟨rfl, q, hq, hm⟩
      · cases heq
  · intro x hdropped
    rcases List.mem_append.1 hdropped with hold | hnew
    · obtain ⟨hdid, hrest⟩ := h.dropped x hold
      exact ⟨List.mem_append_left _ hdid, hrest⟩
    · rcases mem_deedsOf hnew with heq | ⟨heq, hnone, hdid⟩
      · cases heq
      · cases heq
        refine ⟨List.mem_append_right _ hdid, q, hq, hm, fun htenant => ?_⟩
        have hjob := h.jobs q hq
        rw [htenant, ← hid, hnone] at hjob
        cases hjob
  · intro tenant r hr job hjob
    rw [hstore] at hr
    split at hr
    · rename_i heq
      rcases hw.runs r hr (by simp [hjob]) with hold | ⟨hown, hphase⟩
      · exact heq ▸ h.runs default r hold job hjob
      · refine ⟨q, hq, ?_, (hmine hphase).trans heq.symm⟩
        rw [hjob, hid] at hown
        exact (Option.some.inj hown).symm
    · exact h.runs tenant r hr job hjob
  · intro tenant job hne
    simp only [TenantWorkers.workerStepUnder, Function.update_apply] at hne
    split at hne
    · rename_i heq
      rcases hw.evaluation job hne with hold | ⟨hown, hphase⟩
      · exact heq ▸ h.evaluations default job hold
      · exact ⟨q, hq, hid.symm.trans hown.symm, (hmine hphase).trans heq.symm⟩
    · exact h.evaluations tenant job hne

/-- A step that leaves the requests and the log: the rows of one tenant are others, some messages or
workers are gone, or a worker has been handed a message. -/
theorem Inv.aside {s' : State} (h : Inv default s) (hrequests : s'.requests = s.requests)
    (hnext : s'.nextJob = s.nextJob) (hlog : s'.log = s.log)
    (hevaluations : s'.evaluations = s.evaluations)
    (hstores : ∀ tenant, (s'.stores tenant).collectJobs = (s.stores tenant).collectJobs ∧
      ∀ r ∈ (s'.stores tenant).sourceRuns, r.jobId ≠ none → r ∈ (s.stores tenant).sourceRuns)
    (hqueue : ∀ m ∈ s'.queue, m ∈ s.queue)
    (hworkers : ∀ w m p, s'.workers.get? w = some (m, p) → s.workers.get? w = some (m, p) ∨
      (m ∈ s.queue ∧ p = .received)) : Inv default s' := by
  constructor
  · exact fun tenant r hr hne => h.ended tenant r ((hstores tenant).2 r hr hne) hne
  · intro tenant
    rw [(hstores tenant).1, hrequests]
    exact h.rows tenant
  · intro q hq
    rw [getJob, (hstores q.tenant).1]
    exact h.jobs q (hrequests ▸ hq)
  · rw [hrequests, hnext]
    exact h.lt_next
  · rw [hrequests]
    exact h.unique
  · rw [hrequests]
    exact fun m hm => h.queued m (hqueue m hm)
  · rw [hrequests]
    intro w m p hheld
    rcases hworkers w m p hheld with hold | ⟨hqueued, rfl⟩
    · exact h.held w m p hold
    · obtain ⟨q, hq, hm⟩ := h.queued m hqueued
      exact ⟨q, hq, hm, fun hne => absurd rfl hne⟩
  · rw [hlog, hrequests]
    exact h.did
  · rw [hlog, hrequests]
    exact h.dropped
  · rw [hrequests]
    intro tenant r hr job hjob
    exact h.runs tenant r ((hstores tenant).2 r hr (by simp [hjob])) job hjob
  · rw [hevaluations, hrequests]
    exact h.evaluations

section

variable {tenant : Uuid} {actor : String} {targets : List TargetAccount} {ht : targets ≠ []}
  {force dryRun : Bool} {reached : Nat}

/-- The request that is accepted. -/
def accepted (s : State) (tenant : Uuid) (actor : String) (targets : List TargetAccount)
    (ht : targets ≠ []) (force dryRun : Bool) : TenantRequest :=
  ⟨⟨{ newJob (s.stores tenant) actor targets with jobId := s.nextJob }, targets, force, dryRun,
    s.serial, ht, rfl⟩, tenant⟩

theorem mem_accept_requests {q : TenantRequest} :
    q ∈ (accept s tenant actor targets ht force dryRun reached).requests ↔
      q ∈ s.requests ∨ q = accepted s tenant actor targets ht force dryRun := by
  simp [accept, accepted]

theorem Inv.accept (h : Inv default s) :
    Inv default (accept s tenant actor targets ht force dryRun reached) := by
  let q₀ := accepted s tenant actor targets ht force dryRun
  have hkeep : ∀ {P : TenantRequest → Prop}, (∃ q ∈ s.requests, P q) →
      ∃ q ∈ (TenantWorkers.accept s tenant actor targets ht force dryRun reached).requests, P q :=
    fun ⟨q, hq, hp⟩ => ⟨q, mem_accept_requests.2 (.inl hq), hp⟩
  have hfresh : ∀ q ∈ s.requests, q.job.jobId ≠ q₀.job.jobId :=
    fun q hq => Nat.ne_of_lt (h.lt_next q hq)
  have hstore : ∀ t, ((TenantWorkers.accept s tenant actor targets ht force dryRun reached).stores
      t).sourceRuns = (s.stores t).sourceRuns ∧
      ((TenantWorkers.accept s tenant actor targets ht force dryRun reached).stores t).collectJobs =
        if t = tenant then (s.stores t).collectJobs.put q₀.job else (s.stores t).collectJobs := by
    intro t
    simp only [TenantWorkers.accept, Function.update_apply]
    split
    · rename_i heq
      rw [heq]
      exact ⟨rfl, rfl⟩
    · exact ⟨rfl, rfl⟩
  constructor
  · intro t r hr
    rw [(hstore t).1] at hr
    exact h.ended t r hr
  · intro t row hrow
    rw [(hstore t).2] at hrow
    split at hrow
    · rename_i heq
      rcases Table.mem_put.1 hrow with rfl | ⟨hrow, _⟩
      · exact ⟨q₀, mem_accept_requests.2 (.inr rfl), heq.symm, rfl⟩
      · exact hkeep (h.rows t row hrow)
    · exact hkeep (h.rows t row hrow)
  · intro q hq
    rw [getJob, (hstore q.tenant).2]
    rcases mem_accept_requests.1 hq with hq | rfl
    · split
      · rw [Table.get?_put, if_neg (hfresh q hq)]
        exact h.jobs q hq
      · exact h.jobs q hq
    · have htenant : (accepted s tenant actor targets ht force dryRun).tenant = tenant := rfl
      rw [if_pos htenant, Table.get?_put]
      exact if_pos rfl
  · intro q hq
    rcases mem_accept_requests.1 hq with hq | rfl
    · exact Nat.lt_succ_of_lt (h.lt_next q hq)
    · exact Nat.lt_succ_self _
  · intro q hq q' hq' hid
    rcases mem_accept_requests.1 hq with hq | rfl <;> rcases mem_accept_requests.1 hq' with hq' | rfl
    · exact h.unique q hq q' hq' hid
    · exact absurd hid (hfresh q hq)
    · exact absurd hid.symm (hfresh q' hq')
    · rfl
  · intro m hm
    rcases List.mem_append.1 hm with hm | hm
    · exact hkeep (h.queued m hm)
    · exact ⟨q₀, mem_accept_requests.2 (.inr rfl), List.mem_of_mem_take hm⟩
  · exact fun w m p hheld => hkeep (h.held w m p hheld)
  · exact fun m t hdid => ⟨(h.did m t hdid).1, hkeep (h.did m t hdid).2⟩
  · exact fun m hdropped => ⟨(h.dropped m hdropped).1, hkeep (h.dropped m hdropped).2⟩
  · intro t r hr job hjob
    rw [(hstore t).1] at hr
    exact hkeep (h.runs t r hr job hjob)
  · exact fun t job hne => hkeep (h.evaluations t job hne)

end

theorem inv_start (default : Uuid) : Inv default start := by
  constructor
  · exact fun _ r hr => absurd hr (Table.not_mem_empty r)
  · exact fun _ row hrow => absurd hrow (Table.not_mem_empty row)
  · intro q hq
    cases hq
  · intro q hq
    cases hq
  · intro q hq
    cases hq
  · intro m hm
    cases hm
  · intro w m p hheld
    cases hheld
  · intro m tenant hdid
    cases hdid
  · intro m hdropped
    cases hdropped
  · exact fun _ r hr => absurd hr (Table.not_mem_empty r)
  · exact fun _ _ hne => absurd rfl hne

theorem Inv.step (h : Inv default s) (e : Event) : Inv default (step fp default s e) := by
  have hsame : ∀ tenant, (s.stores tenant).collectJobs = (s.stores tenant).collectJobs ∧
      ∀ r ∈ (s.stores tenant).sourceRuns, r.jobId ≠ none → r ∈ (s.stores tenant).sourceRuns :=
    fun _ => ⟨rfl, fun _ hr _ => hr⟩
  have hupdate : ∀ t u, u.collectJobs = (s.stores t).collectJobs ∧
      (∀ r ∈ u.sourceRuns, r.jobId ≠ none → r ∈ (s.stores t).sourceRuns) →
      Inv default { s with stores := Function.update s.stores t u } := by
    intro t u hu
    refine h.aside rfl rfl rfl rfl (fun tenant => ?_) (fun _ hm => hm) fun _ _ _ hheld => .inl hheld
    simp only [Function.update_apply]
    split
    · rename_i heq
      rw [heq]
      exact hu
    · exact hsame tenant
  cases e with
  | request tenant actor targets force dryRun reached =>
    simp only [TenantWorkers.step]
    split
    · exact h
    · exact h.accept
  | receive w serial =>
    simp only [TenantWorkers.step]
    split
    · rename_i m _ hfind
      refine h.aside rfl rfl rfl rfl hsame (fun _ hm => hm) fun w' m' p hheld => ?_
      rw [Dict.get?_set] at hheld
      split at hheld
      · cases hheld
        exact .inr ⟨List.mem_of_find?_eq_some hfind, rfl⟩
      · exact .inl hheld
    · exact h
  | worker w act =>
    simp only [TenantWorkers.step]
    split
    · exact h
    · rename_i m phase hheld
      exact h.workerStepUnder hheld act
  | deadLetter serial =>
    exact h.aside rfl rfl rfl rfl hsame (fun _ hm => List.mem_of_mem_filter hm)
      fun _ _ _ hheld => .inl hheld
  | crash w =>
    refine h.aside rfl rfl rfl rfl hsame (fun _ hm => hm) fun w' m p hheld => .inl ?_
    simp only [TenantWorkers.step, Dict.get?_pop] at hheld
    split at hheld
    · cases hheld
    · exact hheld
  | purge cutoff =>
    exact hupdate default _ ⟨rfl, fun r hr _ => (Table.mem_deleteWhere.1 hr).1⟩
  | other tenant a =>
    exact hupdate tenant _ ⟨a.jobs _, fun r hr hne => (a.runs _ (h.ended tenant) r hne).1 hr⟩

/-- Every step but a lookup does what it does for the tenant of an item that has been found. -/
theorem deeds_good (h : Inv default s) {w : Nat} {m : Message} {phase : Phase} {act : Act}
    (hheld : s.workers.get? w = some (m, phase)) :
    (∀ x tenant, .did x tenant ∈ deedsOf s default m phase act →
      ∀ q ∈ s.requests, x ∈ q.messages → q.tenant = default) ↔ Good default s (.worker w act) := by
  obtain ⟨q, hq, hm, hmine⟩ := h.held w m phase hheld
  have hsole : ∀ q' ∈ s.requests, m ∈ q'.messages → q' = q :=
    fun q' hq' hm' => h.request_unique hq' hq hm' hm
  by_cases hphase : phase = .received
  · cases act with
    | lookup =>
      subst hphase
      have hdid : .did m default ∈ deedsOf s default m .received .lookup := by
        simp only [deedsOf]
        split <;> simp
      constructor
      · rintro hall e he _ q' hq' hm'
        cases hheld.symm.trans he
        exact hall m default hdid q' hq' hm'
      · intro hgood x tenant hx q' hq' hx'
        rcases mem_deedsOf hx with heq | ⟨heq, _⟩
        · cases heq
          exact hgood _ hheld rfl q' hq' hx'
        · cases heq
    | _ =>
      subst hphase
      exact ⟨fun _ => trivial, fun _ x tenant hx => (by cases hx)⟩
  · have hall : ∀ x tenant, .did x tenant ∈ deedsOf s default m phase act →
        ∀ q ∈ s.requests, x ∈ q.messages → q.tenant = default := by
      intro x tenant hx q' hq' hx'
      rcases mem_deedsOf hx with heq | ⟨heq, _⟩
      · cases heq
        rw [hsole q' hq' hx']
        exact hmine hphase
      · cases heq
    refine ⟨fun _ => ?_, fun _ => hall⟩
    cases act with
    | lookup =>
      intro e he hreceived
      cases hheld.symm.trans he
      exact absurd hreceived hphase
    | _ => exact trivial

theorem clean_step (h : Inv default s) (hs : Clean default s) (e : Event) :
    Clean default (step fp default s e) ↔ Good default s e := by
  have hkeep : ∀ {s' : State}, s'.log = s.log → s'.requests = s.requests →
      (Clean default s' ↔ True) := by
    intro s' hlog hrequests
    refine ⟨fun _ => trivial, fun _ => ?_⟩
    rw [Clean, hlog, hrequests]
    exact hs
  cases e with
  | request tenant actor targets force dryRun reached =>
    refine ⟨fun _ => trivial, fun _ => ?_⟩
    simp only [step]
    split
    · exact hs
    · intro m t hdid q hq hm
      rcases mem_accept_requests.1 hq with hq | rfl
      · exact hs m t hdid q hq hm
      · obtain ⟨_, q', hq', hm'⟩ := h.did m t hdid
        have hid : q'.job.jobId = s.nextJob :=
          (jobId_of_mem_messages hm').symm.trans (jobId_of_mem_messages hm)
        exact absurd hid (Nat.ne_of_lt (h.lt_next q' hq'))
  | receive w serial =>
    simp only [step]
    split <;> exact hkeep rfl rfl
  | worker w act =>
    simp only [step]
    split
    · rename_i hnone
      refine ⟨fun _ => ?_, fun _ => hs⟩
      cases act with
      | lookup =>
        intro e he
        cases hnone.symm.trans he
      | _ => exact trivial
    · rename_i m phase hheld
      rw [← deeds_good h hheld]
      constructor
      · exact fun hclean x tenant hx => hclean x tenant (List.mem_append_right _ hx)
      · intro hdeeds x tenant hx
        rcases List.mem_append.1 hx with hold | hnew
        · exact hs x tenant hold
        · exact hdeeds x tenant hnew
  | deadLetter serial => exact hkeep rfl rfl
  | crash w => exact hkeep rfl rfl
  | purge cutoff => exact hkeep rfl rfl
  | other tenant a => exact hkeep rfl rfl

end

/-- The background work is done under the tenants of its requests, in every state of a run, exactly
when the workers take up items of the default tenant only. -/
theorem faithful_iff (fp : Arith) (default : Uuid) (es : List Event) :
    Always (step fp default) Faithful start es ↔
      Along (step fp default) (Good default) start es := by
  have hinv : ∀ s e, Inv default s → Inv default (step fp default s e) := fun s e h => h.step e
  have hclean : Always (step fp default) (Clean default) start es ↔
      Along (step fp default) (Good default) start es := by
    refine Always.iff_along hinv (fun s e h hs => clean_step h hs e) (inv_start default) ?_
    intro m tenant hdid
    cases hdid
  rw [← hclean, Always.iff_prefix, Always.iff_prefix]
  refine forall_congr' fun before => forall_congr' fun later => imp_congr_right fun _ => ?_
  exact (exec_inv hinv (inv_start default) before).faithful_clean

/-! ### A tenant of its own -/

/-- A request of tenant 1, where the default tenant is 0, and the delivery of its item. -/
def requestOfTenant : List Event := [.request 1 "ops" [volumesOf ["eu-west-1"]] false false 1,
  .receive 0 0, .worker 0 .lookup]

/-- The worker finds no job for the item, and drops it. -/
theorem dropped_of_tenant : ¬ Always (step .exact 0) Faithful start requestOfTenant := by
  intro h
  have hfinal : Faithful (exec (step .exact 0) start requestOfTenant) :=
    Always.iff_prefix.1 h requestOfTenant [] (List.append_nil _).symm
  have hdropped : ((exec (step .exact 0) start requestOfTenant).requests.any fun q =>
      q.messages.any fun m =>
        decide (.dropped m ∈ (exec (step .exact 0) start requestOfTenant).log)) = true := by
    decide +kernel
  obtain ⟨q, hq, hdropped⟩ := List.any_eq_true.1 hdropped
  obtain ⟨m, hm, hdropped⟩ := List.any_eq_true.1 hdropped
  exact hfinal.kept q hq m hm (of_decide_eq_true hdropped)

end TenantWorkers

end Constat
