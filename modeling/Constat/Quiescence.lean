import Constat.SingleEvaluation

/-!
# Quiescence

A job that nobody works on any more. Its evaluation is looked into only after an item has been
collected successfully and acked, a failed attempt counts as the run of its scope, and the claim is
taken once: a job whose last item is dead-lettered, or whose items are collected again after the
claim, ends without an evaluation of its final data.

* `Quiescent`     — no item of the job is queued, and no worker holds one.
* `EvaluatedLast` — the job's evaluation has ended, and was claimed after its last runs.
* `Settled`       — a quiescent job whose scopes all have a finished run has been evaluated last.
* `Good`          — the steps after which that can still be said.
* `Closed`        — the invariant of good runs.
-/

namespace Constat

namespace Evaluation

open Trace CollectJobs Collector

/-! ## What a quiescent job should have -/

/-- No worker but `w`, if any, holds an item of the job. -/
def HeldBy (s : State) (w : Option Nat) (job : Uuid) : Prop :=
  ∀ e ∈ s.workers.items, e.2.1.item.jobId = job → w = some e.1

structure Quiescent (s : State) (job : Uuid) : Prop where
  queue : ∀ m ∈ s.queue, m.item.jobId ≠ job
  workers : HeldBy s none job

/-- The scope of an item has a run of the job that has ended. -/
def Finished (job : Uuid) (t : Store) (item : WorkItem) : Prop :=
  ∃ a, RowOf t item.awsAccountId a ∧ ∃ r ∈ t.sourceRuns, r.jobId = some job ∧
    r.accountId = a.id ∧ r.region = item.region ∧ r.status ≠ .running

/-- The rules have been run for the job, from a claim after which its runs have not changed. -/
def EvaluatedLast (log : List Mark) (job : Uuid) : Prop :=
  ∃ before w later, log = before ++ .claimed w job :: later ∧ .recorded job ∉ later ∧
    .finished w job ∈ later ∧ ranRules later job = sortedRunners

def Settled (s : State) : Prop :=
  ∀ q ∈ s.requests, Quiescent s q.job.jobId →
    (∀ m ∈ q.messages, Finished q.job.jobId s.store m.item) → EvaluatedLast s.log q.job.jobId

/-! ## Good steps -/

/-- The job is complete in `t`, and nobody has claimed its evaluation. -/
def Due (s : State) (t : Store) (job : Uuid) : Prop :=
  s.evaluation.get? job = none ∧
    (getJob t job).any (fun row => isJobComplete t job row.totalItems) = true

/-- The item that `w` holds is the last one of its job. -/
def Alone (s : State) (w : Nat) (job : Uuid) : Prop :=
  (∀ m ∈ s.queue, m.item.jobId ≠ job) ∧ HeldBy s (some w) job

def Phase.evaluating : Phase → Bool
  | .claimed _ _ => true
  | _ => false

/-- What a worker may do with the item it holds. It leaves no job that is due with nothing left to
collect, nor in the middle of its evaluation; and it collects nothing new for a job whose evaluation
has been claimed. -/
def GoodAct (s : State) (w : Nat) (m : Message) (phase : Phase) : Act → Prop
  | .giveUp => phase ∈ [.received, .admitted, .collected] →
    ¬ (Alone s w m.item.jobId ∧ Due s s.store m.item.jobId)
  | .collect world => phase = .admitted →
    (s.evaluation.get? m.item.jobId ≠ none →
      listRunsForJob (processItem m.item world s.store).1 m.item.jobId =
        listRunsForJob s.store m.item.jobId) ∧
    ((processItem m.item world s.store).2 ≠ .ok [] →
      ¬ (Alone s w m.item.jobId ∧ Due s (processItem m.item world s.store).1 m.item.jobId))
  | .abandon => phase.evaluating = false ∧ (phase ∈ [.acked, .complete] →
    ¬ (Alone s w m.item.jobId ∧ Due s s.store m.item.jobId))
  | _ => True

/-- No process crashes, a request names no (account, region) twice, and a message that is
dead-lettered is not the last one of a job that is due. -/
def Good (s : State) : Event → Prop
  | .request _ targets _ _ _ =>
    (targets.flatMap fun t => (regionsOf t).map fun region => (t.awsAccountId, region)).Nodup
  | .worker w act => ∀ e ∈ s.workers.get? w, GoodAct s w e.1 e.2 act
  | .deadLetter serial => ∀ m ∈ s.queue, m.serial = serial →
    ¬ ((∀ x ∈ s.queue, x.item.jobId = m.item.jobId → x.serial = serial) ∧
      HeldBy s none m.item.jobId ∧ Due s s.store m.item.jobId)
  | .crash _ => False
  | _ => True

instance (s : State) (w : Option Nat) (job : Uuid) : Decidable (HeldBy s w job) :=
  inferInstanceAs (Decidable (∀ e ∈ s.workers.items, _ → _))

instance (s : State) (t : Store) (job : Uuid) : Decidable (Due s t job) :=
  inferInstanceAs (Decidable (_ ∧ _))

instance (s : State) (w : Nat) (job : Uuid) : Decidable (Alone s w job) :=
  inferInstanceAs (Decidable (_ ∧ _))

instance (s : State) (w : Nat) (m : Message) (phase : Phase) :
    ∀ act, Decidable (GoodAct s w m phase act)
  | .giveUp | .collect _ => inferInstanceAs (Decidable (_ → _))
  | .abandon => inferInstanceAs (Decidable (_ ∧ _))
  | .lookup | .ack | .check | .claim | .rule _ | .finish => inferInstanceAs (Decidable True)

instance (s : State) : ∀ e, Decidable (Good s e)
  | .request _ _ _ _ _ => inferInstanceAs (Decidable (List.Nodup _))
  | .worker w act => inferInstanceAs (Decidable (∀ e ∈ s.workers.get? w, GoodAct s w e.1 e.2 act))
  | .deadLetter _ => inferInstanceAs (Decidable (∀ m ∈ s.queue, _ → _))
  | .crash _ => inferInstanceAs (Decidable False)
  | .receive _ _ | .purge _ | .other _ => inferInstanceAs (Decidable True)

/-! ## The invariant -/

structure Closed (s : State) : Prop where
  scopes : ∀ q ∈ s.requests, q.scopes.Nodup
  due : ∀ q ∈ s.requests, s.evaluation.get? q.job.jobId = none → Quiescent s q.job.jobId →
    isJobComplete s.store q.job.jobId q.job.totalItems = false
  running : ∀ job, s.evaluation.get? job = some .running → ∃ w m rules failed,
    s.workers.get? w = some (m, .claimed rules failed) ∧ m.item.jobId = job
  claimed : ∀ job status, s.evaluation.get? job = some status → ∃ before w later,
    s.log = before ++ .claimed w job :: later ∧ .recorded job ∉ later ∧ ranRules before job = [] ∧
      (status ≠ .running → .finished w job ∈ later ∧ ranRules s.log job = sortedRunners)

section

variable {fp : Arith} {s s' : State} {q : Request} {m : Message} {job : Uuid} {w : Nat}

theorem finished_iff (h : Inv s) {item : WorkItem} :
    Finished job s.store item ↔ Ran job s.store item := by
  constructor
  · rintro ⟨a, ha, r, hr, hjob, haccount, hregion, _⟩
    exact ⟨a, ha, r, hr, hjob, haccount, hregion⟩
  · rintro ⟨a, ha, r, hr, hjob, haccount, hregion⟩
    exact ⟨a, ha, r, hr, hjob, haccount, hregion, h.ended r hr (by simp [hjob])⟩

theorem Closed.settled (h : Inv s) (hs : Closed s) : Settled s := by
  intro q hq hquiet hall
  have hcomplete : isJobComplete s.store q.job.jobId q.job.totalItems = true :=
    (isJobComplete_request h hq).2 ⟨hs.scopes q hq, fun m hm => (finished_iff h).1 (hall m hm)⟩
  cases hstatus : s.evaluation.get? q.job.jobId with
  | none =>
    rw [hs.due q hq hstatus hquiet] at hcomplete
    cases hcomplete
  | some status =>
    by_cases hrunning : status = .running
    · obtain ⟨w, m, rules, failed, hheld, hid⟩ := hs.running _ (hrunning ▸ hstatus)
      cases hquiet.workers _ (Dict.get?_eq_some.1 hheld) hid
    · obtain ⟨before, w, later, hlog, hnew, hnil, hend⟩ := hs.claimed _ status hstatus
      obtain ⟨hfinished, hrules⟩ := hend hrunning
      refine ⟨before, w, later, hlog, hnew, hfinished, ?_⟩
      have hsplit : ranRules s.log q.job.jobId = ranRules later q.job.jobId := by
        rw [hlog, List.append_cons, ranRules_append, ranRules_append, hnil,
          ranRules_of_other (by simp)]
        rfl
      rw [← hsplit]
      exact hrules

/-! ## Who is left -/

/-- While a worker holds an item of a job, the job is not quiescent. -/
theorem quiescent_hold {p : Phase} (h : Quiescent s' job)
    (hworkers : s'.workers = s.workers.set w (m, p))
    (hheld : ∀ m' p', s.workers.get? w = some (m', p') → m' = m)
    (hqueue : ∀ x ∈ s.queue, x.item.jobId = job → m.item.jobId ≠ job → x ∈ s'.queue) :
    m.item.jobId ≠ job ∧ Quiescent s job := by
  have hne : m.item.jobId ≠ job := by
    intro hid
    cases h.workers (w, (m, p)) (hworkers ▸ Dict.mem_set.2 (.inl rfl)) hid
  refine ⟨hne, fun x hx hid => h.queue x (hqueue x hx hid hne) hid, fun e he hid => ?_⟩
  by_cases hw : e.1 = w
  · have hget : s.workers.get? w = some e.2 := Dict.get?_eq_some.2 (hw ▸ he)
    rw [hheld e.2.1 e.2.2 hget] at hid
    exact absurd hid hne
  · exact h.workers e (hworkers ▸ Dict.mem_set.2 (.inr ⟨he, hw⟩)) hid

/-- A worker that leaves its item leaves a quiescent job only if the item is the last one. -/
theorem quiescent_free {p : Phase} (h : Quiescent s' job)
    (hheld : s.workers.get? w = some (m, p)) (hworkers : s'.workers = s.workers.pop w)
    (hqueue : s'.queue = s.queue) :
    (m.item.jobId = job → Alone s w job) ∧ (m.item.jobId ≠ job → Quiescent s job) := by
  have hothers : HeldBy s (some w) job := by
    intro e he hid
    by_cases hw : e.1 = w
    · rw [hw]
    · cases h.workers e (hworkers ▸ Dict.mem_pop.2 ⟨he, hw⟩) hid
  have hempty : ∀ x ∈ s.queue, x.item.jobId ≠ job := hqueue ▸ h.queue
  refine ⟨fun _ => ⟨hempty, hothers⟩, fun hne => ⟨hempty, fun e he hid => ?_⟩⟩
  cases hothers e he hid
  rw [Dict.get?_eq_some.2 he, Option.some.injEq] at hheld
  rw [hheld] at hid
  exact absurd hid hne

theorem due_of_complete (h : Inv s) (hq : q ∈ s.requests) {u : Store}
    (hjobs : u.collectJobs = s.store.collectJobs) (hnone : s.evaluation.get? q.job.jobId = none)
    (hcomplete : isJobComplete u q.job.jobId q.job.totalItems = true) :
    Due s u q.job.jobId := by
  have hjob : getJob u q.job.jobId = some q.job := by
    rw [getJob, hjobs]
    exact h.jobs q hq
  exact ⟨hnone, by rw [hjob]; exact hcomplete⟩

/-! ## Steps -/

/-- A step that neither claims nor ends an evaluation. -/
theorem Closed.off (hs : Closed s) (hrequests : s'.requests = s.requests)
    (hevaluation : s'.evaluation = s.evaluation)
    (hlog : ∃ marks : List Mark, s'.log = s.log ++ marks ∧
      (∀ job, .recorded job ∈ marks → s.evaluation.get? job = none) ∧
        ∀ job, s.evaluation.get? job ≠ some .running → ranRules marks job = [])
    (hworkers : ∀ w m rules failed, s.workers.get? w = some (m, .claimed rules failed) →
      ∃ rules' failed', s'.workers.get? w = some (m, .claimed rules' failed'))
    (hdue : ∀ q ∈ s.requests, s.evaluation.get? q.job.jobId = none →
      Quiescent s' q.job.jobId → isJobComplete s'.store q.job.jobId q.job.totalItems = true →
        Quiescent s q.job.jobId ∧
          isJobComplete s.store q.job.jobId q.job.totalItems = true) : Closed s' := by
  obtain ⟨marks, hlog, hrecorded, hran⟩ := hlog
  constructor
  · rw [hrequests]
    exact hs.scopes
  · intro q hq hnone hquiet
    rw [hrequests] at hq
    rw [hevaluation] at hnone
    by_contra hcomplete
    rw [Bool.not_eq_false] at hcomplete
    obtain ⟨hquiet, hcomplete⟩ := hdue q hq hnone hquiet hcomplete
    rw [hs.due q hq hnone hquiet] at hcomplete
    cases hcomplete
  · intro job hrunning
    rw [hevaluation] at hrunning
    obtain ⟨w, m, rules, failed, hheld, hid⟩ := hs.running job hrunning
    obtain ⟨rules', failed', hheld'⟩ := hworkers w m rules failed hheld
    exact ⟨w, m, rules', failed', hheld', hid⟩
  · intro job status hstatus
    rw [hevaluation] at hstatus
    obtain ⟨before, w, later, hsplit, hnew, hnil, hend⟩ := hs.claimed job status hstatus
    refine ⟨before, w, later ++ marks, ?_, ?_, hnil, fun hne => ?_⟩
    · rw [hlog, hsplit, List.append_assoc, List.cons_append]
    · rw [List.mem_append]
      rintro (hold | hnew')
      · exact hnew hold
      · rw [hrecorded job hnew'] at hstatus
        cases hstatus
    · obtain ⟨hfinished, hrules⟩ := hend hne
      refine ⟨List.mem_append_left _ hfinished, ?_⟩
      rw [hlog, ranRules_append, hran job, List.append_nil]
      · exact hrules
      · rw [hstatus]
        exact fun heq => hne (Option.some.inj heq)

/-- A mark that is neither of runs nor of rules. -/
theorem marked {x : Mark} (hrecorded : ∀ job, x ≠ .recorded job)
    (hran : ∀ w job rule, x ≠ .ran w job rule) :
    ∃ marks : List Mark, (s.mark x).log = s.log ++ marks ∧
      (∀ job, .recorded job ∈ marks → s.evaluation.get? job = none) ∧
        ∀ job, s.evaluation.get? job ≠ some .running → ranRules marks job = [] := by
  refine ⟨[x], rfl, fun job hx => ?_, fun job _ => ranRules_of_other fun w rule => hran w job rule⟩
  exact absurd (List.mem_singleton.1 hx).symm (hrecorded job)

theorem unmarked : ∃ marks : List Mark, s.log = s.log ++ marks ∧
    (∀ job, .recorded job ∈ marks → s.evaluation.get? job = none) ∧
      ∀ job, s.evaluation.get? job ≠ some .running → ranRules marks job = [] :=
  ⟨[], (List.append_nil _).symm, fun job hx => (by cases hx), fun _ _ => rfl⟩

/-- A collection marks the runs of its job when it changes them, before the evaluation is claimed. -/
theorem collected_marked {u : Store} (hsame : s.evaluation.get? job ≠ none →
      listRunsForJob u job = listRunsForJob s.store job) :
    ∃ marks : List Mark, (s.collected job u).log = s.log ++ marks ∧
      (∀ j, .recorded j ∈ marks → s.evaluation.get? j = none) ∧
        ∀ j, s.evaluation.get? j ≠ some .running → ranRules marks j = [] := by
  simp only [State.collected]
  split
  · exact unmarked
  · rename_i hchanged
    refine ⟨[.recorded job], rfl, fun j hj => ?_, fun j _ => rfl⟩
    cases List.mem_singleton.1 hj
    by_contra hne
    exact hchanged (hsame hne)

/-- The evaluations that are under way stay so when a worker that has none moves on. -/
theorem claimed_kept {e : Message × Phase} (hheld : s.workers.get? w = some e)
    (hphase : e.2.ofChain = false ∨ e.2 = .complete)
    (hothers : ∀ w', w' ≠ w → s'.workers.get? w' = s.workers.get? w') :
    ∀ w m rules failed, s.workers.get? w = some (m, .claimed rules failed) →
      ∃ rules' failed', s'.workers.get? w = some (m, .claimed rules' failed') := by
  intro w' m' rules failed hheld'
  refine ⟨rules, failed, ?_⟩
  by_cases hw : w' = w
  · rw [hw, hheld] at hheld'
    cases hheld'
    rcases hphase with hphase | hphase <;> cases hphase
  · rw [hothers w' hw]
    exact hheld'

/-- The runs of other jobs are not the collection's. -/
theorem runs_of_other (h : Inv s) (world : World)
    (hne : m.item.jobId ≠ job) :
    ∀ r ∈ (processItem m.item world s.store).1.sourceRuns, r.jobId = some job →
      r ∈ s.store.sourceRuns := by
  intro r hr hjob
  refine ((processItem_kept m.item world h.ended).others r (by simp [hjob]) ?_).1 hr
  rw [hjob]
  exact fun heq => hne (Option.some.inj heq).symm

theorem Closed.claim (hc : Chain s) (hs : Closed s) (hm : m ∈ q.messages)
    (hheld : s.workers.get? w = some (m, .complete))
    (hnone : s.evaluation.get? q.job.jobId = none) :
    Closed (((s.setStatus q.job.jobId .running).mark (.claimed w q.job.jobId)).hold w m
      (.claimed sortedRunners false)) := by
  have hid := jobId_of_mem_messages hm
  constructor
  · exact hs.scopes
  · intro q' hq' hnone' hquiet
    rw [State.hold, State.mark, State.setStatus, Dict.get?_set] at hnone'
    split at hnone'
    · cases hnone'
    · refine hs.due q' hq' hnone' (quiescent_hold (s := s) hquiet rfl ?_ fun _ hx _ _ => hx).2
      intro m' p' hheld'
      rw [hheld] at hheld'
      cases hheld'
      rfl
  · intro job hrunning
    simp only [State.hold, State.mark, State.setStatus, Dict.get?_set] at hrunning ⊢
    split at hrunning
    · rename_i hjob
      exact ⟨w, m, sortedRunners, false, if_pos rfl, hid.trans hjob.symm⟩
    · obtain ⟨w', m', rules, failed, hheld', hid'⟩ := hs.running job hrunning
      refine ⟨w', m', rules, failed, ?_, hid'⟩
      rw [if_neg]
      · exact hheld'
      · rintro rfl
        rw [hheld] at hheld'
        cases hheld'
  · intro job status hstatus
    simp only [State.hold, State.mark, State.setStatus, Dict.get?_set] at hstatus ⊢
    split at hstatus
    · rename_i hjob
      cases hstatus
      refine ⟨s.log, w, [], by rw [hjob], by simp, ?_, fun hne => absurd rfl hne⟩
      rw [hjob]
      exact (hc.unclaimed _ hnone).2
    · obtain ⟨before, w', later, hlog, hnew, hnil, hend⟩ := hs.claimed job status hstatus
      refine ⟨before, w', later ++ [.claimed w q.job.jobId], ?_, by simpa using hnew, hnil, ?_⟩
      · rw [hlog, List.append_assoc, List.cons_append]
      · intro hne
        obtain ⟨hfinished, hrules⟩ := hend hne
        exact ⟨List.mem_append_left _ hfinished, by simpa [ranRules_of_other] using hrules⟩

theorem Closed.finish {failed : Bool} {status : EvaluationStatus} (hterminal : status ≠ .running)
    (hc : Chain s) (hs : Closed s) (hm : m ∈ q.messages)
    (hheld : s.workers.get? w = some (m, .claimed [] failed)) :
    Closed (((s.setStatus q.job.jobId status).mark (.finished w q.job.jobId)).free w) := by
  have hid := jobId_of_mem_messages hm
  obtain ⟨hclaimed, hrunning, hrules⟩ := hc.claimed w m [] failed hheld
  rw [hid] at hclaimed hrunning hrules
  constructor
  · exact hs.scopes
  · intro q' hq' hnone' hquiet
    rw [State.free, State.mark, State.setStatus, Dict.get?_set] at hnone'
    split at hnone'
    · cases hnone'
    · rename_i hne
      refine hs.due q' hq' hnone' ((quiescent_free hquiet hheld rfl rfl).2 ?_)
      rw [hid]
      exact Ne.symm hne
  · intro job hstatus
    simp only [State.free, State.mark, State.setStatus, Dict.get?_set] at hstatus
    split at hstatus
    · cases hstatus
      exact absurd rfl hterminal
    · rename_i hne
      obtain ⟨w', m', rules, failed', hheld', hid'⟩ := hs.running job hstatus
      refine ⟨w', m', rules, failed', ?_, hid'⟩
      simp only [State.free, Dict.get?_pop]
      rw [if_neg]
      · exact hheld'
      · rintro rfl
        rw [hheld] at hheld'
        cases hheld'
        exact hne (hid'.symm.trans hid)
  · intro job status' hstatus
    simp only [State.free, State.mark, State.setStatus, Dict.get?_set] at hstatus ⊢
    split at hstatus
    · rename_i hjob
      obtain ⟨before, w', later, hlog, hnew, hnil, _⟩ := hs.claimed job .running (hjob ▸ hrunning)
      have hw : w' = w := hc.owner q.job.jobId w' w (by rw [hlog, hjob]; simp) hclaimed
      subst hw
      refine ⟨before, w', later ++ [.finished w' q.job.jobId], ?_, by simpa using hnew, hnil, ?_⟩
      · rw [hlog, List.append_assoc, List.cons_append]
      · intro _
        refine ⟨by simp [hjob], ?_⟩
        rw [hjob, ranRules_append, ranRules_of_other (by simp)]
        exact hrules
    · obtain ⟨before, w', later, hlog, hnew, hnil, hend⟩ := hs.claimed job status' hstatus
      refine ⟨before, w', later ++ [.finished w q.job.jobId], ?_, by simpa using hnew, hnil, ?_⟩
      · rw [hlog, List.append_assoc, List.cons_append]
      · intro hne
        obtain ⟨hfinished, hrules⟩ := hend hne
        exact ⟨List.mem_append_left _ hfinished, by simpa [ranRules_of_other] using hrules⟩

/-- A worker leaves its item: it is not the last one of a job that is due. -/
theorem Closed.leave {phase : Phase} (h : Inv s) (hs : Closed s)
    (hheld : s.workers.get? w = some (m, phase))
    (hphase : phase.ofChain = false ∨ phase = .complete) (hrequests : s'.requests = s.requests)
    (hevaluation : s'.evaluation = s.evaluation)
    (hlog : ∃ marks : List Mark, s'.log = s.log ++ marks ∧
      (∀ job, .recorded job ∈ marks → s.evaluation.get? job = none) ∧
        ∀ job, s.evaluation.get? job ≠ some .running → ranRules marks job = [])
    (hworkers : s'.workers = s.workers.pop w) (hqueue : s'.queue = s.queue)
    (hstore : s'.store.collectJobs = s.store.collectJobs ∧ Ended s'.store)
    (hruns : ∀ job, m.item.jobId ≠ job → ∀ r ∈ s'.store.sourceRuns, r.jobId = some job →
      r ∈ s.store.sourceRuns)
    (hlast : ¬ (Alone s w m.item.jobId ∧ Due s s'.store m.item.jobId)) : Closed s' := by
  refine hs.off hrequests hevaluation hlog (claimed_kept hheld hphase fun w' hw => ?_) ?_
  · rw [hworkers, Dict.get?_pop, if_neg hw]
  · intro q hq hnone hquiet hcomplete
    obtain ⟨hown, hother⟩ := quiescent_free hquiet hheld hworkers hqueue
    by_cases hid : m.item.jobId = q.job.jobId
    · rw [hid] at hlast
      exact absurd ⟨hown hid, due_of_complete h hq hstore.1 hnone hcomplete⟩ hlast
    · exact ⟨hother hid, isJobComplete_mono h.ended hstore.2 (hruns _ hid) hcomplete⟩

/-- A worker goes on with its item, or takes one from the queue. -/
theorem Closed.goOn {phase : Phase} (h : Inv s) (hs : Closed s)
    (hrequests : s'.requests = s.requests) (hevaluation : s'.evaluation = s.evaluation)
    (hlog : ∃ marks : List Mark, s'.log = s.log ++ marks ∧
      (∀ job, .recorded job ∈ marks → s.evaluation.get? job = none) ∧
        ∀ job, s.evaluation.get? job ≠ some .running → ranRules marks job = [])
    (hworkers : s'.workers = s.workers.set w (m, phase))
    (hheld : ∀ m' p', s.workers.get? w = some (m', p') → m' = m)
    (hclaimed : ∀ m' rules failed, s.workers.get? w = some (m', .claimed rules failed) →
      ∃ rules' failed', phase = .claimed rules' failed')
    (hqueue : ∀ x ∈ s.queue, ∀ job, x.item.jobId = job → m.item.jobId ≠ job → x ∈ s'.queue)
    (hended : Ended s'.store)
    (hruns : ∀ job, m.item.jobId ≠ job → ∀ r ∈ s'.store.sourceRuns, r.jobId = some job →
      r ∈ s.store.sourceRuns) : Closed s' := by
  refine hs.off hrequests hevaluation hlog ?_ ?_
  · intro w' m' rules failed hheld'
    rw [hworkers]
    by_cases hw : w' = w
    · rw [hw] at hheld'
      obtain ⟨rules', failed', hphase⟩ := hclaimed m' rules failed hheld'
      refine ⟨rules', failed', ?_⟩
      rw [Dict.get?_set, if_pos hw, hheld m' _ hheld', hphase]
    · refine ⟨rules, failed, ?_⟩
      rw [Dict.get?_set, if_neg hw]
      exact hheld'
  · intro q hq hnone hquiet hcomplete
    obtain ⟨hne, hquiet⟩ := quiescent_hold hquiet hworkers hheld fun x hx => hqueue x hx _
    exact ⟨hquiet, isJobComplete_mono h.ended hended (hruns _ hne) hcomplete⟩

/-- What a worker's collection leaves of the runs: those of the other jobs, and those of its own job
when the step is good and the evaluation has started. -/
theorem collect_runs (h : Inv s) (hid : m.item.jobId = q.job.jobId) {world : World} {u : Store}
    {r : Except PyError (List String)} (hout : processItem m.item world s.store = (u, r)) :
    (GoodAct s w m .admitted (.collect world) → s.evaluation.get? q.job.jobId ≠ none →
      listRunsForJob u q.job.jobId = listRunsForJob s.store q.job.jobId) ∧ Ended u ∧
        ∀ job, m.item.jobId ≠ job → ∀ r ∈ u.sourceRuns, r.jobId = some job →
          r ∈ s.store.sourceRuns := by
  have hended := (processItem_kept m.item world h.ended).ended
  have hothers := fun job (hne : m.item.jobId ≠ job) => runs_of_other h world hne
  rw [hout] at hended hothers
  refine ⟨fun hgood => ?_, hended, hothers⟩
  have hkept := (hgood rfl).1
  rwa [hout, hid] at hkept

theorem Moved.closed {phase : Phase} {act : Act} (h : Inv s) (hc : Chain s) (hs : Closed s)
    (hq : q ∈ s.requests) (hm : m ∈ q.messages) (hheld : s.workers.get? w = some (m, phase))
    (hgood : GoodAct s w m phase act) (hmoved : Moved fp s w q m phase act s') : Closed s' := by
  have hid := jobId_of_mem_messages hm
  have hsame : ∀ m' p', s.workers.get? w = some (m', p') → m' = m := by
    intro m' p' hheld'
    rw [hheld] at hheld'
    cases hheld'
    rfl
  have hruns : ∀ job, m.item.jobId ≠ job → ∀ r ∈ s.store.sourceRuns, r.jobId = some job →
      r ∈ s.store.sourceRuns := fun _ _ _ hr _ => hr
  have hnot : ∀ {p : Phase}, p.ofChain = false ∨ p = .complete →
      s.workers.get? w = some (m, p) → ∀ {p' : Phase} m' rules failed,
        s.workers.get? w = some (m', .claimed rules failed) →
          ∃ rules' failed', p' = .claimed rules' failed' := by
    intro p hp hheld p' m' rules failed hheld'
    rw [hheld] at hheld'
    cases hheld'
    rcases hp with hp | hp <;> cases hp
  cases hmoved with
  | idle => exact hs
  | lookup =>
    exact hs.goOn h rfl rfl unmarked rfl hsame (hnot (.inl rfl) hheld) (fun _ hx _ _ _ => hx)
      h.ended hruns
  | giveUp phase hphase =>
    rcases hphase with rfl | rfl | rfl <;>
      exact hs.leave h hheld (.inl rfl) rfl rfl unmarked rfl rfl ⟨rfl, h.ended⟩ hruns
        (hgood (by simp))
  | @succeed world u hout =>
    obtain ⟨hkept, hended, hothers⟩ := collect_runs h hid hout
    obtain ⟨marks, hlog, hrecorded, hran⟩ := collected_marked (hkept hgood)
    refine hs.goOn h rfl rfl ⟨marks ++ [.succeeded m], ?_, ?_, ?_⟩ rfl hsame
      (hnot (.inl rfl) hheld) (fun _ hx _ _ _ => hx) hended hothers
    · simp only [State.hold, State.mark, hlog, List.append_assoc]
    · intro job hjob
      exact hrecorded job (by simpa using hjob)
    · intro job hjob
      rw [ranRules_append, hran job hjob, ranRules_of_other (by simp)]
      rfl
  | @fail world u r hr hout =>
    obtain ⟨hkept, hended, hothers⟩ := collect_runs h hid hout
    refine hs.leave h hheld (.inl rfl) rfl rfl (collected_marked (hkept hgood)) rfl rfl
      ⟨?_, hended⟩ hothers ?_
    · have hjobs := (processItem_kept m.item world h.ended).jobs
      rwa [hout] at hjobs
    · have hlast := (hgood rfl).2
      rw [hout] at hlast
      exact hlast hr
  | ack =>
    refine hs.goOn h rfl rfl unmarked rfl hsame (hnot (.inl rfl) hheld) (fun x hx job hjob hne => ?_)
      h.ended hruns
    refine List.mem_filter.2 ⟨hx, decide_eq_true fun hserial => hne ?_⟩
    obtain ⟨q', hq', hx'⟩ := h.queued x hx
    rw [← h.distinct q' hq' x hx' q hq m hm hserial]
    exact hjob
  | saw =>
    exact hs.goOn h rfl rfl (marked (by simp) (by simp)) rfl hsame (hnot (.inl rfl) hheld)
      (fun _ hx _ _ _ => hx) h.ended hruns
  | incomplete hincomplete =>
    refine hs.leave h hheld (.inl rfl) rfl rfl unmarked rfl rfl ⟨rfl, h.ended⟩ hruns ?_
    rintro ⟨_, _, hdue⟩
    have hjob : getJob (s.free w).store q.job.jobId = some q.job := h.jobs q hq
    rw [hid, hjob] at hdue
    exact Bool.false_ne_true (hincomplete.symm.trans hdue)
  | claim hnone => exact hs.claim hc hm hheld hnone
  | lost hstatus =>
    refine hs.leave h hheld (.inr rfl) rfl rfl unmarked rfl rfl ⟨rfl, h.ended⟩ hruns ?_
    rintro ⟨_, hnone, _⟩
    rw [hid, hstatus] at hnone
    cases hnone
  | rule rule rules failed world =>
    have hstore := runRule_sameJobs fp world rule s.store
    refine hs.goOn h rfl rfl ⟨[.ran w q.job.jobId rule], rfl, by simp, fun job hjob => ?_⟩ rfl hsame
      (fun _ _ _ _ => ⟨_, _, rfl⟩) (fun _ hx _ _ _ => hx) ?_ ?_
    · rw [ranRules_ran, if_neg]
      rintro rfl
      exact hjob (hid ▸ (hc.claimed w m _ _ hheld).2.1)
    · intro r hr
      exact h.ended r (hstore.sourceRuns ▸ hr)
    · intro job _ r hr _
      exact hstore.sourceRuns ▸ hr
  | finish failed =>
    refine Closed.finish ?_ hc hs hm hheld
    cases failed <;> simp
  | abandon phase hphase =>
    rcases hphase with rfl | rfl | ⟨rules, failed, rfl⟩
    · exact hs.leave h hheld (.inl rfl) rfl rfl unmarked rfl rfl ⟨rfl, h.ended⟩ hruns
        (hgood.2 (by simp))
    · exact hs.leave h hheld (.inr rfl) rfl rfl unmarked rfl rfl ⟨rfl, h.ended⟩ hruns
        (hgood.2 (by simp))
    · cases hgood.1

/-- A new job has no runs yet. -/
theorem Closed.accept {actor : String} {targets : List TargetAccount} {ht : targets ≠ []}
    {force dryRun : Bool} {reached : Nat} (h : Inv s) (hs : Closed s)
    (hscopes : (accepted s actor targets ht force dryRun).scopes.Nodup) :
    Closed (accept s actor targets ht force dryRun reached) := by
  have hinv : Inv (Evaluation.accept s actor targets ht force dryRun reached) := h.accept
  obtain ⟨_, hfresh⟩ : _ ∧ ∀ r ∈ s.store.sourceRuns, r.jobId ≠
    some (accepted s actor targets ht force dryRun).job.jobId := fresh_accepted h
  constructor
  · intro q hq
    rcases mem_accept_requests.1 hq with hq | rfl
    · exact hs.scopes q hq
    · exact hscopes
  · intro q hq hnone hquiet
    rcases mem_accept_requests.1 hq with hold | rfl
    · refine hs.due q hold hnone ⟨fun m hm => hquiet.queue m ?_, hquiet.workers⟩
      exact List.mem_append_left _ hm
    · by_contra hcomplete
      rw [Bool.not_eq_false, isJobComplete_request hinv hq] at hcomplete
      have hitems : (accepted s actor targets ht force dryRun).items ≠ [] := workItems_ne_nil ht
      obtain ⟨item, hitem⟩ := List.exists_mem_of_ne_nil _ hitems
      obtain ⟨m, hm, _⟩ := exists_message hitem
      obtain ⟨a, _, r, hr, hjob, _⟩ := hcomplete.2 m hm
      exact hfresh r hr hjob
  · exact hs.running
  · exact hs.claimed

theorem closed_step (h : Inv s) (hc : Chain s) (hs : Closed s) {e : Event} (hgood : Good s e) :
    Closed (step fp s e) := by
  have hworkers : ∀ w m rules failed, s.workers.get? w = some (m, .claimed rules failed) →
      ∃ rules' failed', s.workers.get? w = some (m, .claimed rules' failed') :=
    fun _ _ rules failed hheld => ⟨rules, failed, hheld⟩
  cases e with
  | request actor targets force dryRun reached =>
    simp only [step]
    split
    · exact hs
    · exact hs.accept h hgood
  | receive w serial =>
    simp only [step]
    split
    · rename_i m hnone hfind
      refine hs.goOn h rfl rfl unmarked rfl ?_ ?_ (fun _ hx _ _ _ => hx) h.ended
        fun _ _ _ hr _ => hr
      · intro m' p' hheld
        rw [hnone] at hheld
        cases hheld
      · intro m' rules failed hheld
        rw [hnone] at hheld
        cases hheld
    · exact hs
  | worker w act =>
    simp only [step]
    split
    · exact hs
    · rename_i m phase hheld
      obtain ⟨q, hq, hm⟩ := h.held w m phase hheld
      exact (workerStep_moved fp h hq hm w phase act).closed h hc hs hq hm hheld (hgood _ hheld)
  | deadLetter serial =>
    refine hs.off rfl rfl unmarked hworkers fun q hq hnone hquiet hcomplete => ?_
    refine ⟨⟨fun m hm hid => ?_, hquiet.workers⟩, hcomplete⟩
    have hserial : ∀ x ∈ s.queue, x.item.jobId = q.job.jobId → x.serial = serial := by
      intro x hx hxid
      by_contra hne
      exact hquiet.queue x (List.mem_filter.2 ⟨hx, decide_eq_true hne⟩) hxid
    refine hgood m hm (hserial m hm hid) ?_
    rw [hid]
    exact ⟨hserial, hquiet.workers, due_of_complete h hq rfl hnone hcomplete⟩
  | crash w => exact hgood.elim
  | purge cutoff =>
    refine hs.off rfl rfl unmarked hworkers fun q _ _ hquiet hcomplete =>
      ⟨⟨hquiet.queue, hquiet.workers⟩, ?_⟩
    refine isJobComplete_mono h.ended ?_ (fun r hr _ => ?_) hcomplete
    · exact fun r hr => h.ended r (Table.mem_deleteWhere.1 hr).1
    · exact (Table.mem_deleteWhere.1 hr).1
  | other a =>
    refine hs.off rfl rfl unmarked hworkers fun q _ _ hquiet hcomplete =>
      ⟨⟨hquiet.queue, hquiet.workers⟩, ?_⟩
    have hruns := a.runs s.store h.ended
    refine isJobComplete_mono h.ended ?_ (fun r hr hjob => ?_) hcomplete
    · exact fun r hr hne => h.ended r ((hruns r hne).1 hr) hne
    · exact (hruns r (by simp [hjob])).1 hr

theorem closed_start : Closed start := by
  constructor
  · intro q hq
    cases hq
  · intro q hq
    cases hq
  · intro job hstatus
    cases hstatus
  · intro job status hstatus
    cases hstatus

end

/-- In a run whose steps are all good, every quiescent job whose scopes all have a finished run has
been evaluated after its last runs. -/
theorem settled_always (fp : Arith) (es : List Event) (hgood : Along (step fp) Good start es) :
    Always (step fp) Settled start es := by
  have hstep : ∀ s e, Inv s ∧ Chain s ∧ Closed s → Good s e →
      Inv (step fp s e) ∧ Chain (step fp s e) ∧ Closed (step fp s e) := by
    rintro s e ⟨h, hc, hs⟩ he
    exact ⟨h.step e, chain_step h hc e, closed_step h hc hs he⟩
  exact (Along.always hstep ⟨inv_start, chain_start, closed_start⟩ hgood).mono
    fun s ⟨h, _, hs⟩ => hs.settled h

/-! ## Two runs -/

def quietRules : RuleWorld where
  plan := .clean
  now := 50
  today := .ofYmd 2026 1 1
  order := Focus.insertionOrder
  accounts := id
  accounts_perm := List.Perm.refl

/-- The request of two regions, collected and evaluated. -/
def evaluatedRun : List Event :=
  collectAll ["eu-west-1", "eu-west-3"] false ++ [.worker 0 .claim] ++
    runners.map (fun _ => .worker 0 (.rule quietRules)) ++ [.worker 0 .finish]

theorem evaluated_run_settled : Always (step .exact) Settled start evaluatedRun ∧
    (exec (step .exact) start evaluatedRun).evaluation.get? 0 = some .success :=
  ⟨settled_always .exact evaluatedRun (by decide +kernel), by decide +kernel⟩

def deniedScan : World :=
  { emptyScan with
    job := fun _ _ => ⟨false, 10, [], .clientError "UnauthorizedOperation" "not authorized", 20, 30⟩ }

/-- The item is collected once, in vain, and dead-lettered. -/
def deniedRun : List Event := [.request "ops" [volumesOf ["eu-west-1"]] false false 1,
  .receive 0 0, .worker 0 .lookup, .worker 0 (.collect deniedScan), .deadLetter 0]

/-- The denied scan leaves a failed run, which completes the job, and nobody looks into its
evaluation. -/
theorem denied_unevaluated : ¬ Settled (exec (step .exact) start deniedRun) := by
  intro h
  have hinv : Inv (exec (step .exact) start deniedRun) :=
    exec_inv (fun _ e h => h.step e) inv_start deniedRun
  have hrun : ((exec (step .exact) start deniedRun).requests.any fun q =>
      isJobComplete (exec (step .exact) start deniedRun).store q.job.jobId q.job.totalItems) = true ∧
      (exec (step .exact) start deniedRun).queue = [] ∧
      (exec (step .exact) start deniedRun).workers.items = [] ∧
      ((exec (step .exact) start deniedRun).log.all fun x => !x.ofChain) = true := by
    decide +kernel
  obtain ⟨hcomplete, hqueue, hworkers, hlog⟩ := hrun
  obtain ⟨q, hq, hcomplete⟩ := List.any_eq_true.1 hcomplete
  have hquiet : Quiescent (exec (step .exact) start deniedRun) q.job.jobId := by
    refine ⟨fun m hm => ?_, fun e he => ?_⟩
    · rw [hqueue] at hm
      cases hm
    · rw [hworkers] at he
      cases he
  have hran := ((isJobComplete_request hinv hq).1 hcomplete).2
  obtain ⟨before, w, later, hsplit, _⟩ := h q hq hquiet fun m hm => (finished_iff hinv).2 (hran m hm)
  have hclaimed : .claimed w q.job.jobId ∈ (exec (step .exact) start deniedRun).log := by
    rw [hsplit]
    simp
  cases List.all_eq_true.1 hlog _ hclaimed

end Evaluation

end Constat
