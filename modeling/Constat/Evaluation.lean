import Constat.JobScopes
import Constat.Lib.Trace
import Constat.RunFailures

/-!
# Evaluation

The collect workers and what their jobs share: the queue, the tables of the jobs, and the
`evaluation_status` of each job. A worker goes through `drain_once` in the steps whose order with
the steps of others matters: it is handed an item, looks its job up, collects, acks, and after the
ack `_maybe_run_evaluation` checks the job, claims its evaluation, runs the rules one after the
other and writes how it ended. Each of these is a transaction of its own.

* `Phase`  — how far a worker is with the item it holds.
* `Event`  — a request, a step of a worker, a delivery (again, perhaps, of an item that is held), a
             dead-letter, a crash, retention, and whatever else the program does.
* `step`   — the effect of an event. `start` is a program that has not run yet.
* `Inv`    — the jobs are those of the requests, their runs are ended and in their scopes.
-/

namespace Constat

namespace Evaluation

open Trace CollectJobs Collector

/-! ## Requests and messages -/

/-- An accepted collect request. `first` is the serial of its first message. -/
structure Request where
  job : CollectJobRow
  targets : List TargetAccount
  force : Bool
  dryRun : Bool
  first : Nat
  nonempty : targets ≠ []
  total : job.totalItems = regionCount targets

structure Message where
  serial : Nat
  item : WorkItem
deriving DecidableEq

namespace Request

def items (q : Request) : List WorkItem := workItems q.job.jobId q.targets q.force q.dryRun

def messages (q : Request) : List Message :=
  (q.items.zipIdx q.first).map fun p => ⟨p.2, p.1⟩

end Request

/-! ## Rules -/

/-- `RUNNERS`, in the order of the source. -/
def runners : List String := ["rds_eol", "mysql_eol", "aurora_eol", "ebs_gp2_to_gp3",
  "ebs_unattached", "snapshot_orphan", "ec2_stopped_with_storage", "chargeback"]

def sortedRunners : List String := runners.insertionSort (· ≤ ·)

/-- What a rule meets: what fails, the clock, and the orders of its queries. -/
structure RuleWorld where
  plan : RunFailures.Plan
  now : Micros
  today : Date
  order : Focus.QueryOrder
  accounts : List Uuid → List Uuid
  accounts_perm : ∀ l, List.Perm (accounts l) l

/-- `run_rule`, with the defaults of its parameters. -/
def callFor (fp : Arith) (world : RuleWorld) (rule : String) : Option RunFailures.Call :=
  if rule = "chargeback" then some (.chargeback {
    now := world.now
    periodLabel := "all-time"
    tagKey := none
    order := world.order
    accounts := world.accounts
    accounts_perm := world.accounts_perm })
  else ((resourceRules fp).find? (·.name = rule)).map
    (.resource · ⟨world.now, world.today, some Runner.defaultScopeMaxAge⟩)

/-- A rule that raises is rolled back. -/
def runRule (fp : Arith) (world : RuleWorld) (rule : String) (store : Store) :
    Store × Option PyError :=
  match callFor fp world rule with
  | none => (store, some ⟨"ValueError", "unknown rule: " ++ rule ++ " (V1 supports: " ++
      Py.repr (.list (sortedRunners.map .str)) ++ ")"⟩)
  | some call =>
    let out := RunFailures.runUnder world.plan fp (.begin store) call
    (RunFailures.afterCall false out, out.2)

/-! ## The system -/

inductive Phase where
  | received
  | admitted
  | collected
  | acked
  | complete
  | claimed (rules : List String) (failed : Bool)
deriving DecidableEq

inductive Mark where
  /-- A collection of the message has returned no errors. -/
  | succeeded (m : Message)
  /-- A collection has changed the runs of the job. -/
  | recorded (job : Uuid)
  /-- The worker has seen the job complete in a store. -/
  | saw (worker : Nat) (job : Uuid) (store : Store)
  | claimed (worker : Nat) (job : Uuid)
  | ran (worker : Nat) (job : Uuid) (rule : String)
  | finished (worker : Nat) (job : Uuid)
deriving DecidableEq

/-- `queue` has the messages that are neither acked nor dead-lettered, the ones in flight among
them. A job that is not in `evaluation` has a NULL there. -/
structure State where
  store : Store
  requests : List Request
  serial : Nat
  queue : List Message
  workers : Dict Nat (Message × Phase)
  evaluation : Dict Uuid EvaluationStatus
  log : List Mark

def start : State := ⟨.empty, [], 0, [], .empty, .empty, []⟩

/-- What the rest of the program does to the store: it makes no runs of a job, and an AWS id keeps
its row. -/
structure Aside where
  act : Store → Store
  jobs : ∀ t, (act t).collectJobs = t.collectJobs
  runs : ∀ t, Ended t → ∀ r, r.jobId ≠ none → (r ∈ (act t).sourceRuns ↔ r ∈ t.sourceRuns)
  rows : ∀ t externalId a, RowOf t externalId a → ∃ b, RowOf (act t) externalId b ∧ b.id = a.id

inductive Act where
  | lookup
  | giveUp
  | collect (world : World)
  | ack
  | check
  | claim
  | rule (world : RuleWorld)
  | finish
  | abandon

/-- `reached` is how many of the items of a request are sent: all of them, or a send has failed. -/
inductive Event where
  | request (actor : String) (targets : List TargetAccount) (force dryRun : Bool) (reached : Nat)
  | receive (worker : Nat) (serial : Nat)
  | worker (worker : Nat) (act : Act)
  | deadLetter (serial : Nat)
  | crash (worker : Nat)
  | purge (cutoff : Micros)
  | other (a : Aside)

namespace State

def hold (s : State) (worker : Nat) (m : Message) (phase : Phase) : State :=
  { s with workers := s.workers.set worker (m, phase) }

def free (s : State) (worker : Nat) : State := { s with workers := s.workers.pop worker }

def settle (s : State) (serial : Nat) : State :=
  { s with queue := s.queue.filter fun m => m.serial ≠ serial }

def mark (s : State) (x : Mark) : State := { s with log := s.log ++ [x] }

def setStatus (s : State) (job : Uuid) (status : EvaluationStatus) : State :=
  { s with evaluation := s.evaluation.set job status }

/-- The store after a collection, and a mark if the runs of the job are not as before. -/
def collected (s : State) (job : Uuid) (u : Store) : State :=
  { s with
    store := u
    log := if listRunsForJob u job = listRunsForJob s.store job then s.log
      else s.log ++ [.recorded job] }

end State

/-- The job row is committed, then its items are sent. -/
def accept (s : State) (actor : String) (targets : List TargetAccount) (h : targets ≠ [])
    (force dryRun : Bool) (reached : Nat) : State :=
  let q : Request := ⟨newJob s.store actor targets, targets, force, dryRun, s.serial, h, rfl⟩
  { s with
    store := (createAndEnqueueCollectJob (.begin s.store) actor targets force dryRun).1.close
    requests := s.requests ++ [q]
    serial := s.serial + q.items.length
    queue := s.queue ++ q.messages.take reached }

/-- Delete the source runs that have started before the cutoff. -/
def purgeRuns (t : Store) (cutoff : Micros) : Store :=
  { t with sourceRuns := t.sourceRuns.deleteWhere fun r => decide (r.startedAt < cutoff) }

/-- What a worker does with the message it holds, in the phase it is in. -/
def workerStep (fp : Arith) (s : State) (worker : Nat) (m : Message) : Phase → Act → State
  -- `_job_exists`: an orphan is acked
  | .received, .lookup =>
    match getJob s.store m.item.jobId with
    | none => (s.settle m.serial).free worker
    | some _ => s.hold worker m .admitted
  -- the lookup raises, the account is busy, or the ack raises
  | .received, .giveUp | .admitted, .giveUp | .collected, .giveUp => s.free worker
  | .admitted, .collect world =>
    match processItem m.item world s.store with
    | (store, .ok []) =>
      ((s.collected m.item.jobId store).mark (.succeeded m)).hold worker m .collected
    | (store, _) => (s.collected m.item.jobId store).free worker
  | .collected, .ack => (s.settle m.serial).hold worker m .acked
  | .acked, .check =>
    match getJob s.store m.item.jobId with
    | none => s.free worker
    | some job =>
      if isJobComplete s.store m.item.jobId job.totalItems then
        (s.mark (.saw worker m.item.jobId s.store)).hold worker m .complete
      else s.free worker
  -- `UPDATE ... WHERE evaluation_status IS NULL`
  | .complete, .claim =>
    match s.evaluation.get? m.item.jobId with
    | some _ => s.free worker
    | none =>
      ((s.setStatus m.item.jobId .running).mark (.claimed worker m.item.jobId)).hold worker m
        (.claimed sortedRunners false)
  | .claimed (rule :: rules) failed, .rule world =>
    let out := runRule fp world rule s.store
    ({ s with store := out.1 }.mark (.ran worker m.item.jobId rule)).hold worker m
      (.claimed rules (failed || out.2.isSome))
  | .claimed [] failed, .finish =>
    ((s.setStatus m.item.jobId (if failed then .failed else .success)).mark
      (.finished worker m.item.jobId)).free worker
  -- whatever the chain raises is logged
  | .acked, .abandon | .complete, .abandon | .claimed _ _, .abandon => s.free worker
  | _, _ => s

/-- A worker that holds a message is not handed another. -/
def step (fp : Arith) (s : State) : Event → State
  | .request actor targets force dryRun reached =>
    if h : targets = [] then s else accept s actor targets h force dryRun reached
  | .receive worker serial =>
    match s.workers.get? worker, s.queue.find? (·.serial = serial) with
    | none, some m => s.hold worker m .received
    | _, _ => s
  | .worker worker act =>
    match s.workers.get? worker with
    | none => s
    | some (m, phase) => workerStep fp s worker m phase act
  | .deadLetter serial => s.settle serial
  | .crash worker => s.free worker
  | .purge cutoff => { s with store := purgeRuns s.store cutoff }
  | .other a => { s with store := a.act s.store }

/-! ## What a rule leaves of the jobs -/

theorem isRecord_of_isBody (w : Write) (h : RunFailures.isBody w = true) : isRecord w = true := by
  cases w <;> first | rfl | cases h

/-- The commit of a run's row, and of what its stages write, keeps the tables of the jobs. -/
theorem sameJobs_conduct {s : DbSession} (run : InsightRunRow) {t u : Store}
    (hstart : s.working = applyWrite t (.insightRun run) ∧ s.committed = s.working)
    (h : u = s.committed ∨ ∃ s', Session.WritesOnly isRecord s s' ∧ u = s'.working) :
    SameJobs t u := by
  have hrow : SameJobs t s.working := by
    rw [hstart.1]
    exact ⟨rfl, rfl, rfl⟩
  rcases h with rfl | ⟨s', hwrites, rfl⟩
  · rw [hstart.2]
    exact hrow
  · exact hrow.trans (SameJobs.of_writesOnly hwrites)

theorem records_chargebackAfter (fp : Arith) (env : Chargeback.Env) (run : InsightRunRow)
    (scanned : Nat) (t : Store) (looped : RunFailures.Looped Chargeback.LoopState)
    {st : RunFailures.Stage} (hst : st ∈ RunFailures.chargebackAfter fp env run scanned t looped)
    (s : DbSession) : Session.WritesOnly isRecord s (st.2 s) := by
  have hinsight : ∀ w, Runner.isInsight w = true → isRecord w = true := fun w hw =>
    isRecord_of_isBody w (RunFailures.isBody_of_isOutput w (Runner.isOutput_of_isInsight w hw))
  simp only [RunFailures.chargebackAfter, List.mem_cons, List.not_mem_nil, or_false] at hst
  rcases hst with rfl | rfl | rfl
  · exact (Session.WritesOnly.write _ rfl).trans ((Runner.writesOnly_insights _ _).mono hinsight)
  · exact (Runner.diffAndRecordEvents_spec fp s "chargeback" _ run.id env.now).1.mono
      fun w hw => isRecord_of_isBody w (RunFailures.isBody_of_isEvent w hw)
  · exact Session.WritesOnly.write _ rfl

/-- A rule writes its output, its row and its audit event. -/
theorem runUnder_sameJobs (plan : RunFailures.Plan) (fp : Arith) (t : Store)
    (call : RunFailures.Call) :
    SameJobs t (RunFailures.runUnder plan fp (.begin t) call).1.committed := by
  have hbody {s s' : DbSession} (h : Session.WritesOnly RunFailures.isBody s s') :
      Session.WritesOnly isRecord s s' := h.mono isRecord_of_isBody
  cases hbegin : plan.stage .begin with
  | some failure =>
    have hout : (RunFailures.runUnder plan fp (.begin t) call).1.committed = t := by
      cases call <;>
        simp [RunFailures.runUnder, RunFailures.runResourceRuleUnder,
          RunFailures.runChargebackUnder, hbegin]
    rw [hout]
    exact ⟨rfl, rfl, rfl⟩
  | none =>
    cases call with
    | resource rule env =>
      simp only [RunFailures.runUnder, RunFailures.runResourceRuleUnder, hbegin]
      exact sameJobs_conduct (Runner.newInsightRun t rule.name env.now) ⟨rfl, rfl⟩
        (RunFailures.conduct_keeps _
          (fun st hst s => hbody (RunFailures.body_resourceBefore rule st hst s))
          (fun s => hbody ((RunFailures.evaluateAllUnder_writes plan rule env s).mono
            RunFailures.isBody_of_isOutput))
          (fun _ st hst s => hbody (RunFailures.body_resourceAfter fp rule env _ _ st hst s))
          (fun _ _ => Session.WritesOnly.write _ rfl) _)
    | chargeback env =>
      simp only [RunFailures.runUnder, RunFailures.runChargebackUnder, hbegin]
      exact sameJobs_conduct (Runner.newInsightRun t "chargeback" env.now) ⟨rfl, rfl⟩
        (RunFailures.conduct_keeps _
          (fun st hst s => hbody (RunFailures.body_chargebackBefore st hst s))
          (fun s => hbody ((RunFailures.addAccountsUnder_writes plan fp env s).mono
            RunFailures.isBody_of_isOutput))
          (fun looped st hst s => records_chargebackAfter fp env _ _ _ looped hst s)
          (fun _ _ => Session.WritesOnly.refl _ _) _)

theorem runRule_sameJobs (fp : Arith) (world : RuleWorld) (rule : String) (t : Store) :
    SameJobs t (runRule fp world rule t).1 := by
  simp only [runRule]
  split
  · exact ⟨rfl, rfl, rfl⟩
  · rename_i call _
    have hstore : RunFailures.afterCall false (RunFailures.runUnder world.plan fp (.begin t) call) =
        (RunFailures.runUnder world.plan fp (.begin t) call).1.committed := by
      simp only [RunFailures.afterCall]
      split <;> rfl
    rw [hstore]
    exact runUnder_sameJobs world.plan fp t call

/-! ## The jobs of the requests -/

structure Inv (s : State) : Prop where
  ended : Ended s.store
  jobs : ∀ q ∈ s.requests, getJob s.store q.job.jobId = some q.job
  unique : ∀ q ∈ s.requests, ∀ q' ∈ s.requests, q.job.jobId = q'.job.jobId → q = q'
  known : ∀ r ∈ s.store.sourceRuns, ∀ job, r.jobId = some job →
    ∃ q ∈ s.requests, q.job.jobId = job
  covered : ∀ q ∈ s.requests, Covered q.items q.job.jobId s.store
  dry : ∀ q ∈ s.requests, q.dryRun = true → ∀ r ∈ s.store.sourceRuns, r.jobId ≠ some q.job.jobId
  queued : ∀ m ∈ s.queue, ∃ q ∈ s.requests, m ∈ q.messages
  held : ∀ w m p, s.workers.get? w = some (m, p) → ∃ q ∈ s.requests, m ∈ q.messages
  serials : ∀ q ∈ s.requests, ∀ m ∈ q.messages, m.serial < s.serial
  distinct : ∀ q ∈ s.requests, ∀ m ∈ q.messages, ∀ q' ∈ s.requests, ∀ m' ∈ q'.messages,
    m.serial = m'.serial → m = m'

/-- `u` is a later store: it has no run of a job that is out of the scopes of the job's items. -/
structure Follows (s : State) (u : Store) : Prop where
  ended : Ended u
  jobs : u.collectJobs = s.store.collectJobs
  rows : ∀ externalId a, RowOf s.store externalId a → ∃ b, RowOf u externalId b ∧ b.id = a.id
  runs : ∀ r ∈ u.sourceRuns, ∀ job, r.jobId = some job → r ∈ s.store.sourceRuns ∨
    ∃ q ∈ s.requests, q.job.jobId = job ∧ q.dryRun = false ∧ ∃ item ∈ q.items,
      item.region = r.region ∧ ∃ a, RowOf u item.awsAccountId a ∧ r.accountId = a.id

/-- `s'` is `s` after a step that accepts no request. -/
structure Carried (s s' : State) : Prop where
  store : Follows s s'.store
  requests : s'.requests = s.requests
  serial : s'.serial = s.serial
  queue : ∀ m ∈ s'.queue, m ∈ s.queue
  workers : ∀ w m p, s'.workers.get? w = some (m, p) →
    m ∈ s.queue ∨ ∃ p', s.workers.get? w = some (m, p')

theorem Follows.of_sameJobs {s : State} {u : Store} (h : Inv s) (hsame : SameJobs s.store u) :
    Follows s u := by
  refine ⟨?_, hsame.collectJobs, fun externalId a ha => ⟨a, ?_, rfl⟩, fun r hr job _ => .inl ?_⟩
  · rw [Ended, hsame.sourceRuns]
    exact h.ended
  · rw [RowOf, hsame.accounts]
    exact ha
  · rwa [hsame.sourceRuns] at hr

theorem Follows.refl {s : State} (h : Inv s) : Follows s s.store :=
  .of_sameJobs h ⟨rfl, rfl, rfl⟩

theorem Inv.carried {s s' : State} (h : Inv s) (hs : Carried s s') : Inv s' where
  ended := hs.store.ended
  jobs q hq := by
    rw [hs.requests] at hq
    rw [getJob, hs.store.jobs]
    exact h.jobs q hq
  unique := by
    rw [hs.requests]
    exact h.unique
  known r hr job hjob := by
    rw [hs.requests]
    rcases hs.store.runs r hr job hjob with hold | ⟨q, hq, hid, _⟩
    · exact h.known r hold job hjob
    · exact ⟨q, hq, hid⟩
  covered q hq r hr hjob := by
    rw [hs.requests] at hq
    rcases hs.store.runs r hr _ hjob with hold | ⟨q', hq', hid, _, hscope⟩
    · obtain ⟨item, hitem, hregion, a, ha, haccount⟩ := h.covered q hq r hold hjob
      obtain ⟨b, hb, hba⟩ := hs.store.rows _ a ha
      exact ⟨item, hitem, hregion, b, hb, haccount.trans hba.symm⟩
    · rwa [h.unique q' hq' q hq hid] at hscope
  dry q hq hdry r hr hjob := by
    rw [hs.requests] at hq
    rcases hs.store.runs r hr _ hjob with hold | ⟨q', hq', hid, hwet, _⟩
    · exact h.dry q hq hdry r hold hjob
    · rw [h.unique q' hq' q hq hid, hdry] at hwet
      cases hwet
  queued m hm := by
    rw [hs.requests]
    exact h.queued m (hs.queue m hm)
  held w m p hm := by
    rw [hs.requests]
    rcases hs.workers w m p hm with hqueued | ⟨p', hheld⟩
    · exact h.queued m hqueued
    · exact h.held w m p' hheld
  serials := by
    rw [hs.requests, hs.serial]
    exact h.serials
  distinct := by
    rw [hs.requests]
    exact h.distinct

/-! ## Steps -/

section

variable {s : State} {q : Request} {m : Message}

theorem item_of_mem_messages (h : m ∈ q.messages) : m.item ∈ q.items := by
  obtain ⟨p, hp, rfl⟩ := List.mem_map.1 h
  exact List.fst_mem_of_mem_zipIdx hp

theorem jobId_of_mem_messages (h : m ∈ q.messages) : m.item.jobId = q.job.jobId :=
  jobId_of_mem_workItems (item_of_mem_messages h)

theorem dryRun_of_mem_messages (h : m ∈ q.messages) : m.item.dryRun = q.dryRun := by
  obtain ⟨t, _, hitem⟩ := List.mem_flatMap.1 (item_of_mem_messages h)
  obtain ⟨region, _, hitem⟩ := List.mem_map.1 hitem
  rw [← hitem]

theorem serial_of_mem_messages (h : m ∈ q.messages) :
    q.first ≤ m.serial ∧ m.serial < q.first + q.items.length := by
  obtain ⟨p, hp, rfl⟩ := List.mem_map.1 h
  exact ⟨List.le_snd_of_mem_zipIdx hp, List.snd_lt_add_of_mem_zipIdx hp⟩

theorem eq_of_serial {m' : Message} (h : m ∈ q.messages) (h' : m' ∈ q.messages)
    (hserial : m.serial = m'.serial) : m = m' := by
  obtain ⟨⟨item, i⟩, hp, rfl⟩ := List.mem_map.1 h
  obtain ⟨⟨item', j⟩, hp', rfl⟩ := List.mem_map.1 h'
  cases (show i = j from hserial)
  rw [List.mk_mem_zipIdx_iff_le_and_getElem?_sub] at hp hp'
  cases hp.2.symm.trans hp'.2
  rfl

theorem Follows.processItem (h : Inv s) (hq : q ∈ s.requests) (hm : m ∈ q.messages)
    (world : World) : Follows s (processItem m.item world s.store).1 := by
  have hkept := processItem_kept m.item world h.ended
  have hscoped := processItem_scoped m.item world h.ended
  refine ⟨hkept.ended, hkept.jobs, fun _ a ha => ⟨a, hscoped.rows ha, rfl⟩, fun r hr job hjob => ?_⟩
  by_cases hown : m.item.jobId = job
  · rcases hscoped.runs r hr (hown ▸ hjob) with hold | ⟨hregion, a, ha, haccount⟩
    · exact .inl hold
    · cases hdry : q.dryRun with
      | true =>
        rw [processItem_dry ((dryRun_of_mem_messages hm).trans hdry)] at hr
        exact .inl hr
      | false =>
        exact .inr ⟨q, hq, (jobId_of_mem_messages hm).symm.trans hown, hdry, m.item,
          item_of_mem_messages hm, hregion.symm, a, ha, haccount⟩
  · have hne : r.jobId ≠ none := by simp [hjob]
    refine .inl ((hkept.others r hne ?_).1 hr)
    rw [hjob]
    exact fun heq => hown (Option.some.inj heq).symm

theorem Follows.purgeRuns (h : Inv s) (cutoff : Micros) : Follows s (purgeRuns s.store cutoff) where
  ended r hr := h.ended r (Table.mem_deleteWhere.1 hr).1
  jobs := rfl
  rows _ a ha := ⟨a, ha, rfl⟩
  runs _ hr _ _ := .inl (Table.mem_deleteWhere.1 hr).1

theorem Follows.aside (h : Inv s) (a : Aside) : Follows s (a.act s.store) where
  ended r hr hne := h.ended r ((a.runs s.store h.ended r hne).1 hr) hne
  jobs := a.jobs s.store
  rows := a.rows s.store
  runs r hr _ hjob := .inl ((a.runs s.store h.ended r (by simp [hjob])).1 hr)

/-- A worker goes on with the message it holds, or leaves it. -/
theorem Carried.of_worker {s' : State} {worker : Nat} {phase : Phase}
    (hheld : s.workers.get? worker = some (m, phase)) (hstore : Follows s s'.store)
    (hrequests : s'.requests = s.requests) (hserial : s'.serial = s.serial)
    (hqueue : ∀ x ∈ s'.queue, x ∈ s.queue)
    (hworkers : s'.workers = s.workers.pop worker ∨
      ∃ p, s'.workers = s.workers.set worker (m, p)) : Carried s s' := by
  refine ⟨hstore, hrequests, hserial, hqueue, fun w x p hx => .inr ?_⟩
  rcases hworkers with hworkers | ⟨p', hworkers⟩
  · rw [hworkers, Dict.get?_pop] at hx
    split at hx
    · cases hx
    · exact ⟨p, hx⟩
  · rw [hworkers, Dict.get?_set] at hx
    split at hx
    · rename_i heq
      cases hx
      exact ⟨phase, heq ▸ hheld⟩
    · exact ⟨p, hx⟩

theorem mem_settle {x : Message} {serial : Nat} (hx : x ∈ (s.settle serial).queue) : x ∈ s.queue :=
  List.mem_of_mem_filter hx

/-- What a step of a worker can be that holds a message of a request. -/
inductive Moved (fp : Arith) (s : State) (w : Nat) (q : Request) (m : Message) :
    Phase → Act → State → Prop where
  | idle (phase : Phase) (act : Act) : Moved fp s w q m phase act s
  | lookup : Moved fp s w q m .received .lookup (s.hold w m .admitted)
  | giveUp (phase : Phase) (h : phase = .received ∨ phase = .admitted ∨ phase = .collected) :
      Moved fp s w q m phase .giveUp (s.free w)
  | succeed (world : World) {u : Store} (h : processItem m.item world s.store = (u, .ok [])) :
      Moved fp s w q m .admitted (.collect world)
        (((s.collected q.job.jobId u).mark (.succeeded m)).hold w m .collected)
  | fail (world : World) {u : Store} {r : Except PyError (List String)} (hr : r ≠ .ok [])
      (h : processItem m.item world s.store = (u, r)) :
      Moved fp s w q m .admitted (.collect world) ((s.collected q.job.jobId u).free w)
  | ack : Moved fp s w q m .collected .ack ((s.settle m.serial).hold w m .acked)
  | saw (h : isJobComplete s.store q.job.jobId q.job.totalItems = true) :
      Moved fp s w q m .acked .check
        ((s.mark (.saw w q.job.jobId s.store)).hold w m .complete)
  | incomplete (h : isJobComplete s.store q.job.jobId q.job.totalItems = false) :
      Moved fp s w q m .acked .check (s.free w)
  | claim (h : s.evaluation.get? q.job.jobId = none) :
      Moved fp s w q m .complete .claim
        (((s.setStatus q.job.jobId .running).mark (.claimed w q.job.jobId)).hold w m
          (.claimed sortedRunners false))
  | lost {status : EvaluationStatus} (h : s.evaluation.get? q.job.jobId = some status) :
      Moved fp s w q m .complete .claim (s.free w)
  | rule (rule : String) (rules : List String) (failed : Bool) (world : RuleWorld) :
      Moved fp s w q m (.claimed (rule :: rules) failed) (.rule world)
        (({ s with store := (runRule fp world rule s.store).1 }.mark
          (.ran w q.job.jobId rule)).hold w m
            (.claimed rules (failed || (runRule fp world rule s.store).2.isSome)))
  | finish (failed : Bool) :
      Moved fp s w q m (.claimed [] failed) .finish
        (((s.setStatus q.job.jobId (if failed then .failed else .success)).mark
          (.finished w q.job.jobId)).free w)
  | abandon (phase : Phase)
      (h : phase = .acked ∨ phase = .complete ∨ ∃ rules failed, phase = .claimed rules failed) :
      Moved fp s w q m phase .abandon (s.free w)

theorem workerStep_moved (fp : Arith) (h : Inv s) (hq : q ∈ s.requests) (hm : m ∈ q.messages)
    (w : Nat) (phase : Phase) (act : Act) :
    Moved fp s w q m phase act (workerStep fp s w m phase act) := by
  have hjob : getJob s.store q.job.jobId = some q.job := h.jobs q hq
  simp only [workerStep, jobId_of_mem_messages hm, hjob]
  split
  · exact .lookup
  · exact .giveUp _ (.inl rfl)
  · exact .giveUp _ (.inr (.inl rfl))
  · exact .giveUp _ (.inr (.inr rfl))
  · split
    · rename_i hout
      exact .succeed _ hout
    · rename_i hraised hout
      exact .fail _ hraised hout
  · exact .ack
  · split
    · rename_i hcomplete
      exact .saw hcomplete
    · rename_i hcomplete
      exact .incomplete (Bool.eq_false_iff.2 hcomplete)
  · split
    · rename_i hstatus
      exact .lost hstatus
    · rename_i hstatus
      exact .claim hstatus
  · exact .rule _ _ _ _
  · exact .finish _
  · exact .abandon _ (.inl rfl)
  · exact .abandon _ (.inr (.inl rfl))
  · exact .abandon _ (.inr (.inr ⟨_, _, rfl⟩))
  · exact .idle _ _

theorem Moved.carried {fp : Arith} {w : Nat} {phase : Phase} {act : Act} {s' : State} (h : Inv s)
    (hq : q ∈ s.requests) (hm : m ∈ q.messages) (hheld : s.workers.get? w = some (m, phase))
    (hmoved : Moved fp s w q m phase act s') : Carried s s' := by
  have hrefl := Follows.refl h
  cases hmoved with
  | idle => exact ⟨hrefl, rfl, rfl, fun _ hx => hx, fun _ _ p hx => .inr ⟨p, hx⟩⟩
  | lookup | saw | claim =>
    exact .of_worker hheld hrefl rfl rfl (fun _ hx => hx) (.inr ⟨_, rfl⟩)
  | giveUp | incomplete | lost | finish | abandon =>
    exact .of_worker hheld hrefl rfl rfl (fun _ hx => hx) (.inl rfl)
  | ack => exact .of_worker hheld hrefl rfl rfl (fun _ => mem_settle) (.inr ⟨_, rfl⟩)
  | succeed world hout =>
    have hfollows := Follows.processItem h hq hm world
    rw [hout] at hfollows
    exact .of_worker hheld hfollows rfl rfl (fun _ hx => hx) (.inr ⟨_, rfl⟩)
  | fail world _ hout =>
    have hfollows := Follows.processItem h hq hm world
    rw [hout] at hfollows
    exact .of_worker hheld hfollows rfl rfl (fun _ hx => hx) (.inl rfl)
  | rule =>
    exact .of_worker hheld (.of_sameJobs h (runRule_sameJobs fp _ _ _)) rfl rfl (fun _ hx => hx)
      (.inr ⟨_, rfl⟩)

theorem free_carried (h : Inv s) (worker : Nat) : Carried s (s.free worker) := by
  refine ⟨Follows.refl h, rfl, rfl, fun _ hx => hx, fun w x p hx => .inr ⟨p, ?_⟩⟩
  simp only [State.free, Dict.get?_pop] at hx
  split at hx
  · cases hx
  · exact hx

/-- A step accepts a request, or carries the requests on. -/
theorem step_cases (fp : Arith) (h : Inv s) (e : Event) :
    (∃ actor targets, ∃ ht : targets ≠ [], ∃ force dryRun reached,
      e = .request actor targets force dryRun reached ∧
        step fp s e = accept s actor targets ht force dryRun reached) ∨
      Carried s (step fp s e) := by
  have hself : Carried s s :=
    ⟨Follows.refl h, rfl, rfl, fun _ hx => hx, fun _ _ p hx => .inr ⟨p, hx⟩⟩
  cases e with
  | request actor targets force dryRun reached =>
    by_cases ht : targets = []
    · refine .inr ?_
      rw [step, dif_pos ht]
      exact hself
    · exact .inl ⟨actor, targets, ht, force, dryRun, reached, rfl, by rw [step, dif_neg ht]⟩
  | receive worker serial =>
    refine .inr ?_
    simp only [step]
    split
    · rename_i m _ hfind
      refine ⟨Follows.refl h, rfl, rfl, fun _ hx => hx, fun w x p hx => ?_⟩
      simp only [State.hold, Dict.get?_set] at hx
      split at hx
      · cases hx
        exact .inl (List.mem_of_find?_eq_some hfind)
      · exact .inr ⟨p, hx⟩
    · exact hself
  | worker worker act =>
    refine .inr ?_
    simp only [step]
    split
    · exact hself
    · rename_i m phase hheld
      obtain ⟨q, hq, hm⟩ := h.held worker m phase hheld
      exact (workerStep_moved fp h hq hm worker phase act).carried h hq hm hheld
  | deadLetter serial =>
    exact .inr ⟨Follows.refl h, rfl, rfl, fun _ => mem_settle, fun _ _ p hx => .inr ⟨p, hx⟩⟩
  | crash worker => exact .inr (free_carried h worker)
  | purge cutoff =>
    exact .inr ⟨.purgeRuns h cutoff, rfl, rfl, fun _ hx => hx, fun _ _ p hx => .inr ⟨p, hx⟩⟩
  | other a => exact .inr ⟨.aside h a, rfl, rfl, fun _ hx => hx, fun _ _ p hx => .inr ⟨p, hx⟩⟩

theorem inv_start : Inv start where
  ended r hr := absurd hr (Table.not_mem_empty r)
  jobs q hq := by cases hq
  unique q hq := by cases hq
  known r hr := absurd hr (Table.not_mem_empty r)
  covered q hq := by cases hq
  dry q hq := by cases hq
  queued m hm := by cases hm
  held w m p hm := by cases hm
  serials q hq := by cases hq
  distinct q hq := by cases hq

section

variable {actor : String} {targets : List TargetAccount} {ht : targets ≠ []} {force dryRun : Bool}
  {reached : Nat}

/-- The request that is accepted. -/
def accepted (s : State) (actor : String) (targets : List TargetAccount) (ht : targets ≠ [])
    (force dryRun : Bool) : Request :=
  ⟨newJob s.store actor targets, targets, force, dryRun, s.serial, ht, rfl⟩

/-- The job of a request is new: no request has it, and no run. -/
theorem fresh_accepted (h : Inv s) :
    (∀ q ∈ s.requests, q.job.jobId ≠ (accepted s actor targets ht force dryRun).job.jobId) ∧
      ∀ r ∈ s.store.sourceRuns,
        r.jobId ≠ some (accepted s actor targets ht force dryRun).job.jobId := by
  have hfresh : ∀ q ∈ s.requests,
      q.job.jobId ≠ (accepted s actor targets ht force dryRun).job.jobId := fun q hq =>
    Table.fresh_next (Table.get?_eq_some.1 (h.jobs q hq)).1
  refine ⟨hfresh, fun r hr hjob => ?_⟩
  obtain ⟨q, hq, hid⟩ := h.known r hr _ hjob
  exact hfresh q hq hid

theorem mem_accept_requests {q : Request} :
    q ∈ (accept s actor targets ht force dryRun reached).requests ↔
      q ∈ s.requests ∨ q = accepted s actor targets ht force dryRun := by
  simp [accept, accepted]

theorem mem_accept_queue (hm : m ∈ (accept s actor targets ht force dryRun reached).queue) :
    m ∈ s.queue ∨ m ∈ (accepted s actor targets ht force dryRun).messages := by
  rcases List.mem_append.1 hm with hm | hm
  · exact .inl hm
  · exact .inr (List.mem_of_mem_take hm)

theorem Inv.accept (h : Inv s) : Inv (accept s actor targets ht force dryRun reached) := by
  let q₀ := accepted s actor targets ht force dryRun
  obtain ⟨hfresh, hruns⟩ : (∀ q ∈ s.requests, q.job.jobId ≠ q₀.job.jobId) ∧
    ∀ r ∈ s.store.sourceRuns, r.jobId ≠ some q₀.job.jobId := fresh_accepted h
  have hserial : ∀ q ∈ s.requests, ∀ m ∈ q.messages, ∀ m' ∈ q₀.messages,
      m.serial ≠ m'.serial := by
    intro q hq m hm m' hm' heq
    have hlt := h.serials q hq m hm
    have hle : s.serial ≤ m'.serial := (serial_of_mem_messages hm').1
    omega
  constructor
  · exact h.ended
  · intro q hq
    have hput : getJob (Evaluation.accept s actor targets ht force dryRun reached).store q.job.jobId =
        if q.job.jobId = q₀.job.jobId then some q₀.job else getJob s.store q.job.jobId :=
      Table.get?_put _ _ _
    rw [hput]
    rcases mem_accept_requests.1 hq with hq | rfl
    · rw [if_neg (hfresh q hq)]
      exact h.jobs q hq
    · exact if_pos rfl
  · intro q hq q' hq' hid
    rcases mem_accept_requests.1 hq with hq | rfl <;> rcases mem_accept_requests.1 hq' with hq' | rfl
    · exact h.unique q hq q' hq' hid
    · exact absurd hid (hfresh q hq)
    · exact absurd hid.symm (hfresh q' hq')
    · rfl
  · intro r hr job hjob
    obtain ⟨q, hq, hid⟩ := h.known r hr job hjob
    exact ⟨q, mem_accept_requests.2 (.inl hq), hid⟩
  · intro q hq
    rcases mem_accept_requests.1 hq with hq | rfl
    · exact h.covered q hq
    · exact fun r hr hjob => absurd hjob (hruns r hr)
  · intro q hq
    rcases mem_accept_requests.1 hq with hq | rfl
    · exact h.dry q hq
    · exact fun _ r hr => hruns r hr
  · intro m hm
    rcases mem_accept_queue hm with hm | hm
    · obtain ⟨q, hq, hm⟩ := h.queued m hm
      exact ⟨q, mem_accept_requests.2 (.inl hq), hm⟩
    · exact ⟨q₀, mem_accept_requests.2 (.inr rfl), hm⟩
  · intro w m p hm
    obtain ⟨q, hq, hm⟩ := h.held w m p hm
    exact ⟨q, mem_accept_requests.2 (.inl hq), hm⟩
  · intro q hq m hm
    rcases mem_accept_requests.1 hq with hq | rfl
    · exact Nat.lt_of_lt_of_le (h.serials q hq m hm) (Nat.le_add_right _ _)
    · exact (serial_of_mem_messages hm).2
  · intro q hq m hm q' hq' m' hm' heq
    rcases mem_accept_requests.1 hq with hq | rfl <;> rcases mem_accept_requests.1 hq' with hq' | rfl
    · exact h.distinct q hq m hm q' hq' m' hm' heq
    · exact absurd heq (hserial q hq m hm m' hm')
    · exact absurd heq.symm (hserial q' hq' m' hm' m hm)
    · exact eq_of_serial hm hm' heq

end

theorem Inv.step {fp : Arith} (h : Inv s) (e : Event) : Inv (step fp s e) := by
  rcases step_cases fp h e with ⟨actor, targets, ht, force, dryRun, reached, _, heq⟩ | hcarried
  · rw [heq]
    exact h.accept
  · exact h.carried hcarried

end

end Evaluation

end Constat
