import Constat.Idempotency
import Constat.SingleEvaluation

/-!
# JobStatus

`get_collect_job` of `routers/aws.py`: what the clients of an accepted request poll. The endpoint
counts the scopes that have a run of the job against the items that were enqueued, so it agrees with
`is_job_complete` only because a run of a job is always in the scope of one of its items.

* `getCollectJob` — the response, from the job row, its runs and the columns of migration 0021.
* `Started`       — an (account, region) pair of a request has a run of its job.
-/

namespace Constat

namespace JobStatus

open Trace CollectJobs Evaluation
open Idempotency (HttpException)

/-! ## The endpoint -/

/-- The columns that the ORM does not map. -/
structure JobOps where
  enqueueError : Option String
  evaluationStatus : Option EvaluationStatus

structure CollectJobRunOut where
  region : String
  resourceType : String
  source : String
  status : RunStatus
  resourcesFound : Option Nat
  error : Option String
  startedAt : Micros
  finishedAt : Option Micros

def runOut (r : SourceRun) : CollectJobRunOut where
  region := r.region
  resourceType := r.resourceType
  source := r.source
  status := r.status
  resourcesFound := r.resourcesFound
  error := r.error
  startedAt := r.startedAt
  finishedAt := r.finishedAt

structure CollectJobStatusResponse where
  jobId : Uuid
  actor : String
  createdAt : Micros
  totalItems : Nat
  summary : List (String × Json)
  scopesStarted : Nat
  pending : Nat
  runsByStatus : Dict RunStatus Nat
  runs : List CollectJobRunOut
  enqueueError : Option String
  evaluationStatus : Option EvaluationStatus

def runsByStatus (runs : List SourceRun) : Dict RunStatus Nat :=
  (runs.map (·.status)).foldl (fun d status => d.update status fun n => n.getD 0 + 1) .empty

/-- `len({(r.account_id, r.region) for r in runs})`. -/
def scopesStarted (runs : List SourceRun) : Nat := (runs.map runScope).dedup.length

/-- `createdAt` is the column of that name, which the database fills in. -/
def statusResponse (createdAt : Uuid → Micros) (job : CollectJobRow) (runs : List SourceRun)
    (ops : Option JobOps) : CollectJobStatusResponse where
  jobId := job.jobId
  actor := job.actor
  createdAt := createdAt job.jobId
  totalItems := job.totalItems
  summary := job.summary
  scopesStarted := scopesStarted runs
  -- `max(total - started, 0)`
  pending := job.totalItems - scopesStarted runs
  runsByStatus := runsByStatus runs
  runs := (runs.mergeSort fun a b => decide (a.startedAt ≤ b.startedAt)).map runOut
  enqueueError := ops.bind (·.enqueueError)
  evaluationStatus := ops.bind (·.evaluationStatus)

def getCollectJob (createdAt : Uuid → Micros) (s : Store) (ops : Option JobOps) (job : Uuid) :
    Except HttpException CollectJobStatusResponse :=
  match getJob s job with
  | none => .error ⟨404, "unknown collect job " ++ job.text⟩
  | some row => .ok (statusResponse createdAt row (listRunsForJob s job) ops)

/-! ## Started scopes -/

def Started (job : Uuid) (t : Store) (scope : String × String) : Prop :=
  ∃ a, RowOf t scope.1 a ∧
    ∃ r ∈ t.sourceRuns, r.jobId = some job ∧ r.accountId = a.id ∧ r.region = scope.2

section

variable {s : State} {q : Request}

theorem scopesStarted_card (t : Store) (job : Uuid) :
    scopesStarted (listRunsForJob t job) = (runScopes t job).card := by
  rw [scopesStarted, runScopes, List.card_toFinset]

theorem getCollectJob_request (h : Inv s) (hq : q ∈ s.requests) (createdAt : Uuid → Micros)
    (ops : Option JobOps) : getCollectJob createdAt s.store ops q.job.jobId =
      .ok (statusResponse createdAt q.job (listRunsForJob s.store q.job.jobId) ops) := by
  simp only [getCollectJob, h.jobs q hq]

/-- A run of the job is in the scope of one of its items, and accounts with different rows have
different AWS ids: the scopes of the runs are as many as the pairs they stand for. -/
theorem started_scopes (h : Inv s) (hq : q ∈ s.requests) :
    ∃ started : Finset (String × String),
      (∀ scope, scope ∈ started ↔ scope ∈ q.scopes ∧ Started q.job.jobId s.store scope) ∧
      scopesStarted (listRunsForJob s.store q.job.jobId) = started.card ∧
      started ⊆ q.scopes.toFinset := by
  have hcovered := h.covered q hq
  have hsub := hcovered.image_subset
  rw [map_scope_items] at hsub
  refine ⟨(runScopes s.store q.job.jobId).image (externalScope s.store), fun scope => ?_, ?_, hsub⟩
  · constructor
    · intro hmem
      have hscope := List.mem_toFinset.1 (hsub hmem)
      refine ⟨hscope, ?_⟩
      rw [← map_scope_items] at hscope
      obtain ⟨item, _, rfl⟩ := List.mem_map.1 hscope
      exact hcovered.mem_image.1 hmem
    · rintro ⟨hscope, hstarted⟩
      rw [← map_scope_items] at hscope
      obtain ⟨item, _, rfl⟩ := List.mem_map.1 hscope
      exact hcovered.mem_image.2 hstarted
  · rw [scopesStarted_card, Finset.card_image_of_injOn hcovered.injOn]

theorem length_scopes (q : Request) : q.scopes.length = q.job.totalItems := by
  rw [← map_scope_items, List.length_map, length_items]

theorem scopesStarted_le (h : Inv s) (hq : q ∈ s.requests) :
    scopesStarted (listRunsForJob s.store q.job.jobId) ≤ q.job.totalItems := by
  obtain ⟨started, _, hcard, hsub⟩ := started_scopes h hq
  rw [hcard, ← length_scopes]
  exact (Finset.card_le_card hsub).trans (List.toFinset_card_le _)

theorem runsByStatus_running (h : Inv s) (job : Uuid) :
    (runsByStatus (listRunsForJob s.store job)).get? .running = none := by
  have hnone : .running ∉ (listRunsForJob s.store job).map (·.status) := by
    intro hmem
    obtain ⟨r, hr, hrunning⟩ := List.mem_map.1 hmem
    obtain ⟨hstored, hjob⟩ := List.mem_filter.1 hr
    have hne : r.jobId ≠ none := by simp [of_decide_eq_true hjob]
    exact h.ended r hstored hne hrunning
  rw [runsByStatus, Dict.get?_foldl_count, if_neg hnone]

/-- What the response says of the request its job was made for. -/
structure Accounts (s : State) (q : Request) (resp : CollectJobStatusResponse) : Prop where
  total : resp.totalItems = q.scopes.length
  -- The started scopes are counted once each, however many runs and items they have.
  started : ∃ started : Finset (String × String),
    (∀ scope, scope ∈ started ↔ scope ∈ q.scopes ∧ Started q.job.jobId s.store scope) ∧
      resp.scopesStarted = started.card
  -- `max` never has to cut.
  pending : resp.scopesStarted + resp.pending = resp.totalItems
  ended : resp.runsByStatus.get? .running = none
  complete : resp.pending = 0 ↔ isJobComplete s.store q.job.jobId q.job.totalItems = true

theorem accounts_of_inv (h : Inv s) (hq : q ∈ s.requests) (createdAt : Uuid → Micros)
    (ops : Option JobOps) :
    Accounts s q (statusResponse createdAt q.job (listRunsForJob s.store q.job.jobId) ops) := by
  obtain ⟨started, hstarted, hcard, _⟩ := started_scopes h hq
  have hle := scopesStarted_le h hq
  refine ⟨(length_scopes q).symm, ⟨started, hstarted, hcard⟩, ?_, runsByStatus_running h _, ?_⟩
  · show scopesStarted _ + (q.job.totalItems - scopesStarted _) = q.job.totalItems
    omega
  · rw [isJobComplete_card h.ended, ← scopesStarted_card]
    show q.job.totalItems - scopesStarted _ = 0 ↔ _
    omega

/-! ## Histories -/

theorem inv_exec (fp : Arith) (es : List Event) {s : State} (h : Inv s) :
    Inv (exec (step fp) s es) := by
  induction es generalizing s with
  | nil => exact h
  | cons e es ih => exact ih (h.step e)

theorem requests_exec (fp : Arith) (es : List Event) {s : State} (h : Inv s)
    (hq : q ∈ s.requests) : q ∈ (exec (step fp) s es).requests := by
  induction es generalizing s with
  | nil => exact hq
  | cons e es ih => exact ih (h.step e) (mem_step_requests h e hq)

/-- **The status of a job accounts for every item**: in every history of requests, deliveries,
failures, crashes and retention, the response to a request's job counts the distinct scopes it names
that have a run, the rest is pending, no run is reported as running, and nothing is pending exactly
when the workers take the job as complete. -/
theorem status_accounts (fp : Arith) (es : List Event) (createdAt : Uuid → Micros)
    (ops : Option JobOps) :
    ∀ q ∈ (exec (step fp) start es).requests,
      ∃ resp, getCollectJob createdAt (exec (step fp) start es).store ops q.job.jobId = .ok resp ∧
        Accounts (exec (step fp) start es) q resp := by
  intro q hq
  have h := inv_exec fp es inv_start
  exact ⟨_, getCollectJob_request h hq createdAt ops, accounts_of_inv h hq createdAt ops⟩

/-- A request for the volumes of two regions. -/
def twoRegions : List Event :=
  [.request "ops" [volumesOf ["eu-west-1", "eu-west-3"]] false false 2]

/-- One of the two regions has been collected. -/
theorem one_region_pending :
    ∃ q ∈ (exec (step .exact) start (twoRegions ++ collectMessage 0)).requests,
      ∃ resp, getCollectJob (fun _ => 0)
          (exec (step .exact) start (twoRegions ++ collectMessage 0)).store none q.job.jobId =
            .ok resp ∧
        Accounts (exec (step .exact) start (twoRegions ++ collectMessage 0)) q resp := by
  have hrun : (exec (step .exact) start (twoRegions ++ collectMessage 0)).requests ≠ [] := by
    decide +kernel
  obtain ⟨q, hq⟩ := List.exists_mem_of_ne_nil _ hrun
  exact ⟨q, hq, status_accounts .exact (twoRegions ++ collectMessage 0) (fun _ => 0) none q hq⟩

/-- A scope that has started stays started while retention spares the job. -/
theorem scopesStarted_mono {fp : Arith} {job : Uuid} {es : List Event} {s : State} (h : Inv s)
    (hspared : Along (step fp) (Spares job) s es) :
    scopesStarted (listRunsForJob s.store job) ≤
      scopesStarted (listRunsForJob (exec (step fp) s es).store job) := by
  have hkeeps : Inv (exec (step fp) s es) ∧ Keeps job s.store (exec (step fp) s es).store :=
    Along.exec_inv (I := fun u => Inv u ∧ Keeps job s.store u.store)
      (fun u e hu hspares => ⟨hu.1.step e, fun r hr hjob =>
        step_keeps hu.1 hspares r (hu.2 r hr hjob) hjob⟩) ⟨h, fun r hr _ => hr⟩ hspared
  rw [scopesStarted_card, scopesStarted_card]
  refine Finset.card_le_card fun scope hscope => ?_
  obtain ⟨r, hr, hjob, hrun⟩ := mem_runScopes.1 hscope
  exact mem_runScopes.2 ⟨r, hkeeps.2 r hr hjob, hjob, hrun⟩

/-- **Progress is never taken back**: two polls of one job, with anything in between that leaves its
runs to it, see `pending` fall or stay. -/
theorem pending_falls (fp : Arith) (es es' : List Event) (createdAt : Uuid → Micros)
    (ops ops' : Option JobOps) (job : Uuid)
    (hspared : Along (step fp) (Spares job) (exec (step fp) start es) es') :
    ∀ q ∈ (exec (step fp) start es).requests, q.job.jobId = job →
      ∃ resp resp', getCollectJob createdAt (exec (step fp) start es).store ops job = .ok resp ∧
        getCollectJob createdAt (exec (step fp) start (es ++ es')).store ops' job = .ok resp' ∧
        resp'.pending ≤ resp.pending ∧ resp'.totalItems = resp.totalItems := by
  rintro q hq rfl
  have h := inv_exec fp es inv_start
  rw [exec_append]
  refine ⟨_, _, getCollectJob_request h hq createdAt ops,
    getCollectJob_request (inv_exec fp es' h) (requests_exec fp es' h hq) createdAt ops', ?_, rfl⟩
  exact Nat.sub_le_sub_left (scopesStarted_mono h hspared) _

theorem collected_region_falls :
    ∃ q ∈ (exec (step .exact) start twoRegions).requests, q.job.jobId = 0 ∧
      ∃ resp resp', getCollectJob (fun _ => 0) (exec (step .exact) start twoRegions).store none 0 =
          .ok resp ∧
        getCollectJob (fun _ => 0) (exec (step .exact) start (twoRegions ++ collectMessage 0)).store
          none 0 = .ok resp' ∧
        resp'.pending ≤ resp.pending ∧ resp'.totalItems = resp.totalItems := by
  have hrun : ((exec (step .exact) start twoRegions).requests.any
      fun q => decide (q.job.jobId = 0)) = true := by decide +kernel
  obtain ⟨q, hq, hid⟩ := List.any_eq_true.1 hrun
  refine ⟨q, hq, of_decide_eq_true hid, ?_⟩
  refine pending_falls .exact twoRegions (collectMessage 0) (fun _ => 0) none none 0 ?_ q hq
    (of_decide_eq_true hid)
  simp [collectMessage, Along, Spares]

/-! ## Evaluated jobs -/

/-- The workers would take the job as complete. -/
def Complete (job : Uuid) (s : State) : Prop :=
  ∃ q ∈ s.requests, q.job.jobId = job ∧ isJobComplete s.store job q.job.totalItems = true

theorem Complete.step {fp : Arith} {job : Uuid} {e : Event} (h : Inv s) (hspares : Spares job s e)
    (hc : Complete job s) : Complete job (step fp s e) := by
  obtain ⟨q, hq, hid, hcomplete⟩ := hc
  exact ⟨q, mem_step_requests h e hq, hid,
    isJobComplete_mono (h.step e).ended h.ended (step_keeps h hspares) hcomplete⟩

/-- A worker is in the evaluation of the job, or the job shows one, only when it is complete. -/
structure Backed (job : Uuid) (s : State) : Prop where
  held : ∀ w m p, s.workers.get? w = some (m, p) → m.item.jobId = job → p.ofChain = true →
    Complete job s
  shown : s.evaluation.get? job ≠ none → Complete job s

theorem Backed.hold {job : Uuid} {u : State} {w : Nat} {m : Message} {p : Phase}
    (hb : Backed job s) (hu : u.workers = s.workers)
    (hp : m.item.jobId = job → p.ofChain = true → Complete job s) :
    ∀ w' m' p', (u.hold w m p).workers.get? w' = some (m', p') → m'.item.jobId = job →
      p'.ofChain = true → Complete job s := by
  intro w' m' p' hget
  simp only [State.hold, hu, Dict.get?_set] at hget
  split at hget
  · cases hget
    exact hp
  · exact hb.held w' m' p' hget

theorem Backed.free {job : Uuid} {u : State} (hb : Backed job s) (hu : u.workers = s.workers)
    (w : Nat) : ∀ w' m' p', (u.free w).workers.get? w' = some (m', p') → m'.item.jobId = job →
      p'.ofChain = true → Complete job s := by
  intro w' m' p' hget
  simp only [State.free, hu, Dict.get?_pop] at hget
  split at hget
  · cases hget
  · exact hb.held w' m' p' hget

theorem Moved.backed {fp : Arith} {job : Uuid} {w : Nat} {m : Message} {phase : Phase} {act : Act}
    {s' : State} (hb : Backed job s) (hq : q ∈ s.requests) (hm : m ∈ q.messages)
    (hheld : s.workers.get? w = some (m, phase)) (hmoved : Moved fp s w q m phase act s') :
    (∀ w' m' p', s'.workers.get? w' = some (m', p') → m'.item.jobId = job → p'.ofChain = true →
      Complete job s) ∧ (s'.evaluation.get? job ≠ none → Complete job s) := by
  have hid := jobId_of_mem_messages hm
  have hchain : phase.ofChain = true → q.job.jobId = job → Complete job s := fun hp hjob =>
    hb.held w m phase hheld (hid.trans hjob) hp
  have hstatus : ∀ status, (phase.ofChain = true) →
      (s.setStatus q.job.jobId status).evaluation.get? job ≠ none → Complete job s := by
    intro status hp hshown
    by_cases hjob : q.job.jobId = job
    · exact hchain hp hjob
    · simp only [State.setStatus, Dict.get?_set, Ne.symm hjob, if_false] at hshown
      exact hb.shown hshown
  cases hmoved with
  | idle => exact ⟨hb.held, hb.shown⟩
  | lookup => exact ⟨hb.hold rfl (fun _ hp => by cases hp), hb.shown⟩
  | giveUp => exact ⟨hb.free rfl w, hb.shown⟩
  | succeed => exact ⟨hb.hold rfl (fun _ hp => by cases hp), hb.shown⟩
  | fail => exact ⟨hb.free rfl w, hb.shown⟩
  | ack => exact ⟨hb.hold rfl (fun _ hp => by cases hp), hb.shown⟩
  | saw hcomplete =>
    exact ⟨hb.hold rfl (fun hjob _ => by
      rw [hid] at hjob
      subst hjob
      exact ⟨q, hq, rfl, hcomplete⟩), hb.shown⟩
  | incomplete => exact ⟨hb.free rfl w, hb.shown⟩
  | claim =>
    exact ⟨hb.hold rfl (fun hjob _ => hchain rfl (hid.symm.trans hjob)), hstatus _ rfl⟩
  | lost => exact ⟨hb.free rfl w, hb.shown⟩
  | rule => exact ⟨hb.hold rfl (fun hjob _ => hchain rfl (hid.symm.trans hjob)), hb.shown⟩
  | finish => exact ⟨hb.free rfl w, hstatus _ rfl⟩
  | abandon => exact ⟨hb.free rfl w, hb.shown⟩

theorem Backed.step {fp : Arith} {job : Uuid} {e : Event} (h : Inv s) (hspares : Spares job s e)
    (hb : Backed job s) : Backed job (step fp s e) := by
  have hmono : Complete job s → Complete job (Evaluation.step fp s e) := Complete.step h hspares
  suffices hback : (∀ w m p, (Evaluation.step fp s e).workers.get? w = some (m, p) →
      m.item.jobId = job → p.ofChain = true → Complete job s) ∧
      ((Evaluation.step fp s e).evaluation.get? job ≠ none → Complete job s) from
    ⟨fun w m p hw hjob hp => hmono (hback.1 w m p hw hjob hp), fun hs => hmono (hback.2 hs)⟩
  clear hmono
  cases e with
  | request actor targets force dryRun reached =>
    simp only [Evaluation.step]
    split <;> exact ⟨hb.held, hb.shown⟩
  | receive worker serial =>
    simp only [Evaluation.step]
    split
    · exact ⟨hb.hold rfl (fun _ hp => by cases hp), hb.shown⟩
    · exact ⟨hb.held, hb.shown⟩
  | worker worker act =>
    simp only [Evaluation.step]
    split
    · exact ⟨hb.held, hb.shown⟩
    · rename_i m phase hheld
      obtain ⟨q, hq, hm⟩ := h.held worker m phase hheld
      exact Moved.backed hb hq hm hheld (workerStep_moved fp h hq hm worker phase act)
  | deadLetter serial => exact ⟨hb.held, hb.shown⟩
  | crash worker => exact ⟨hb.free rfl worker, hb.shown⟩
  | purge cutoff => exact ⟨hb.held, hb.shown⟩
  | other a => exact ⟨hb.held, hb.shown⟩

theorem backed_start (job : Uuid) : Backed job start where
  held w m p hget := by cases hget
  shown h := absurd rfl h

/-- The columns of migration 0021, as the evaluation of the job has left them. -/
def opsOf (s : State) (job : Uuid) (enqueueError : Option String) : JobOps :=
  ⟨enqueueError, s.evaluation.get? job⟩

/-- **An evaluated job has nothing pending**: while retention spares its runs, a response that shows
an evaluation, running or ended, reports every item of the job as started. -/
theorem evaluated_nothing_pending (fp : Arith) (es : List Event) (job : Uuid)
    (createdAt : Uuid → Micros) (enqueueError : Option String)
    (hspared : Along (step fp) (Spares job) start es) (resp : CollectJobStatusResponse)
    (hresp : getCollectJob createdAt (exec (step fp) start es).store
      (some (opsOf (exec (step fp) start es) job enqueueError)) job = .ok resp)
    (hshown : resp.evaluationStatus ≠ none) : resp.pending = 0 := by
  have hrun : Inv (exec (step fp) start es) ∧ Backed job (exec (step fp) start es) :=
    Along.exec_inv (I := fun s => Inv s ∧ Backed job s)
      (fun s e hs hspares => ⟨hs.1.step e, hs.2.step hs.1 hspares⟩)
      ⟨inv_start, backed_start job⟩ hspared
  obtain ⟨h, hbacked⟩ := hrun
  generalize exec (step fp) start es = s at h hbacked hresp
  have hstatus : s.evaluation.get? job ≠ none := by
    rw [getCollectJob] at hresp
    split at hresp
    · cases hresp
    · cases hresp
      exact hshown
  obtain ⟨q, hq, rfl, hcomplete⟩ := hbacked.shown hstatus
  rw [getCollectJob_request h hq, Except.ok.injEq] at hresp
  rw [← hresp]
  exact (accounts_of_inv h hq createdAt _).complete.2 hcomplete

/-- Both regions are collected, and the worker that saw it has claimed the evaluation. -/
def claimedRun : List Event := collectAll ["eu-west-1", "eu-west-3"] false ++ [.worker 0 .claim]

theorem claimed_run_nothing_pending :
    ∃ resp, getCollectJob (fun _ => 0) (exec (step .exact) start claimedRun).store
        (some (opsOf (exec (step .exact) start claimedRun) 0 none)) 0 = .ok resp ∧
      resp.evaluationStatus = some .running ∧ resp.pending = 0 := by
  have hrun : ((exec (step .exact) start claimedRun).requests.any
      fun q => decide (q.job.jobId = 0)) = true := by decide +kernel
  have hstatus : (exec (step .exact) start claimedRun).evaluation.get? 0 = some .running := by
    decide +kernel
  obtain ⟨q, hq, hid⟩ := List.any_eq_true.1 hrun
  have hresp := getCollectJob_request (inv_exec .exact claimedRun inv_start) hq (fun _ => 0)
    (some (opsOf (exec (step .exact) start claimedRun) 0 none))
  rw [of_decide_eq_true hid] at hresp
  refine ⟨_, hresp, hstatus, ?_⟩
  refine evaluated_nothing_pending .exact claimedRun 0 (fun _ => 0) none ?_ _ hresp
    (ne_of_eq_of_ne hstatus ?_)
  · simp [claimedRun, collectAll, collectMessage, Along, Spares, List.range_succ]
  · exact Option.some_ne_none _

end

end JobStatus

end Constat
