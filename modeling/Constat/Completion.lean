import Constat.Evaluation

/-!
# Completion

A job whose items have all been collected successfully. `is_job_complete` compares the number of
items with the number of scopes that have a run: a request that names an (account, region) twice
enqueues two items for one scope, and a dry run enqueues items that leave no run.

* `Spares`      — retention deletes no run of the job.
* `Done`        — a message that has been collected successfully has a run in its scope.
* `Counted`     — the job is complete, and a worker that checks it gets it evaluated.
* `counted_iff` — that is so exactly for the requests that are not dry and name no scope twice.
-/

namespace Constat

namespace Evaluation

open Trace CollectJobs Collector

section

variable {fp : Arith} {s : State} {q : Request} {m : Message} {job : Uuid}

/-! ## What a step keeps of the runs of a job -/

/-- Retention deletes no run of the job. -/
def Spares (job : Uuid) (s : State) : Event → Prop
  | .purge cutoff => ∀ r ∈ s.store.sourceRuns, r.jobId = some job → cutoff ≤ r.startedAt
  | _ => True

/-- The runs of the job are still there. -/
def Keeps (job : Uuid) (t u : Store) : Prop :=
  ∀ r ∈ t.sourceRuns, r.jobId = some job → r ∈ u.sourceRuns

theorem Moved.keeps {w : Nat} {phase : Phase} {act : Act} {s' : State} (h : Inv s)
    (hmoved : Moved fp s w q m phase act s') (job : Uuid) : Keeps job s.store s'.store := by
  have hkept : ∀ {u r}, (∃ world, processItem m.item world s.store = (u, r)) →
      Keeps job s.store u := by
    rintro u r ⟨world, hout⟩ x hx hjob
    have hscoped := (processItem_scoped m.item world h.ended).kept x hx (by simp [hjob])
    rwa [hout] at hscoped
  cases hmoved with
  | succeed world hout => exact hkept ⟨world, hout⟩
  | fail world _ hout => exact hkept ⟨world, hout⟩
  | rule rule rules failed world =>
    intro r hr _
    have hsame := (runRule_sameJobs fp world rule s.store).sourceRuns
    exact hsame.symm ▸ hr
  | _ => exact fun _ hr _ => hr

theorem step_keeps (h : Inv s) {e : Event} (hspares : Spares job s e) :
    Keeps job s.store (step fp s e).store := by
  intro r hr hjob
  cases e with
  | request actor targets force dryRun reached =>
    simp only [step]
    split <;> exact hr
  | receive worker serial =>
    simp only [step]
    split <;> exact hr
  | worker worker act =>
    simp only [step]
    split
    · exact hr
    · rename_i m phase hheld
      obtain ⟨q, hq, hm⟩ := h.held worker m phase hheld
      exact (workerStep_moved fp h hq hm worker phase act).keeps h job r hr hjob
  | deadLetter serial => exact hr
  | crash worker => exact hr
  | purge cutoff =>
    refine Table.mem_deleteWhere.2 ⟨hr, ?_⟩
    rw [decide_eq_false_iff_not, not_lt]
    exact hspares r hr hjob
  | other a => exact (a.runs s.store h.ended r (by simp [hjob])).2 hr

theorem step_rows (h : Inv s) (e : Event) {externalId : String} {a : Account}
    (ha : RowOf s.store externalId a) :
    ∃ b, RowOf (step fp s e).store externalId b ∧ b.id = a.id := by
  rcases step_cases fp h e with ⟨actor, targets, ht, force, dryRun, reached, _, heq⟩ | hcarried
  · rw [heq]
    exact ⟨a, ha, rfl⟩
  · exact hcarried.store.rows externalId a ha

theorem ran_step {item : WorkItem} (h : Inv s) {e : Event} (hspares : Spares job s e)
    (hran : Ran job s.store item) : Ran job (step fp s e).store item := by
  obtain ⟨a, ha, r, hr, hjob, haccount, hregion⟩ := hran
  obtain ⟨b, hb, hba⟩ := step_rows h e ha
  exact ⟨b, hb, r, step_keeps h hspares r hr hjob, hjob, haccount.trans hba.symm, hregion⟩

/-! ## Successful collections -/

theorem mem_collected_log {x : Mark} {u : Store} (hx : x ∈ (s.collected job u).log) :
    x ∈ s.log ∨ x = .recorded job := by
  simp only [State.collected] at hx
  split at hx
  · exact .inl hx
  · simpa using hx

theorem mem_mark_log {x y : Mark} (hx : x ∈ (s.mark y).log) : x ∈ s.log ∨ x = y := by
  simpa [State.mark] using hx

/-- A message is marked when a worker that holds it has collected it. -/
theorem succeeded_cases (h : Inv s) (e : Event) (hm : .succeeded m ∈ (step fp s e).log) :
    .succeeded m ∈ s.log ∨ ∃ q ∈ s.requests, m ∈ q.messages ∧ ∃ world,
      processItem m.item world s.store = ((step fp s e).store, .ok []) := by
  cases e with
  | request actor targets force dryRun reached =>
    simp only [step] at hm
    split at hm <;> exact .inl hm
  | receive worker serial =>
    simp only [step] at hm
    split at hm <;> exact .inl hm
  | worker w act =>
    simp only [step] at hm ⊢
    split at hm
    · exact .inl hm
    · rename_i m' phase hheld
      obtain ⟨q, hq, hm'⟩ := h.held w m' phase hheld
      have hmoved := workerStep_moved fp h hq hm' w phase act
      generalize workerStep fp s w m' phase act = s' at hm hmoved ⊢
      cases hmoved with
      | succeed world hout =>
        rcases mem_mark_log hm with hold | hnew
        · rcases mem_collected_log hold with hold | hnew
          · exact .inl hold
          · cases hnew
        · cases hnew
          exact .inr ⟨q, hq, hm', world, hout⟩
      | fail world _ hout =>
        rcases mem_collected_log hm with hold | hnew
        · exact .inl hold
        · cases hnew
      | saw | claim | rule | finish =>
        rcases mem_mark_log hm with hold | hnew
        · exact .inl hold
        · cases hnew
      | _ => exact .inl hm
  | deadLetter serial => exact .inl hm
  | crash worker => exact .inl hm
  | purge cutoff => exact .inl hm
  | other a => exact .inl hm

/-- The messages that have been collected are those of requests, and those of the job have left a
run if their request is not dry. -/
structure Done (job : Uuid) (s : State) : Prop where
  known : ∀ m, .succeeded m ∈ s.log → ∃ q ∈ s.requests, m ∈ q.messages
  ran : ∀ q ∈ s.requests, q.job.jobId = job → q.dryRun = false → ∀ m ∈ q.messages,
    .succeeded m ∈ s.log → Ran job s.store m.item

theorem resourceTypes_ne_nil (hm : m ∈ q.messages) : m.item.resourceTypes ≠ some [] := by
  obtain ⟨t, _, hitem⟩ := List.mem_flatMap.1 (item_of_mem_messages hm)
  obtain ⟨region, _, hitem⟩ := List.mem_map.1 hitem
  rw [← hitem]
  intro hnil
  obtain ⟨l, _, hl⟩ := Option.bind_eq_some_iff.1 hnil
  split at hl
  · cases hl
  · rename_i hne
    exact hne (Option.some.inj hl)

theorem mem_step_requests (h : Inv s) (e : Event) (hq : q ∈ s.requests) :
    q ∈ (step fp s e).requests := by
  rcases step_cases fp h e with ⟨actor, targets, ht, force, dryRun, reached, _, heq⟩ | hcarried
  · rw [heq]
    exact mem_accept_requests.2 (.inl hq)
  · rwa [hcarried.requests]

theorem done_step (h : Inv s) (hdone : Done job s) {e : Event} (hspares : Spares job s e) :
    Done job (step fp s e) := by
  constructor
  · intro m hm
    rcases succeeded_cases h e hm with hold | ⟨q, hq, hm, _⟩
    · obtain ⟨q, hq, hm⟩ := hdone.known m hold
      exact ⟨q, mem_step_requests h e hq, hm⟩
    · exact ⟨q, mem_step_requests h e hq, hm⟩
  · intro q hq hid hwet m hm hsucceeded
    have hinv : Inv (step fp s e) := h.step e
    rcases succeeded_cases h e hsucceeded with hold | ⟨q', hq', hm', world, hout⟩
    · obtain ⟨q', hq', hm'⟩ := hdone.known m hold
      have hsame : q' = q := hinv.unique q' (mem_step_requests h e hq') q hq
        ((jobId_of_mem_messages hm').symm.trans (jobId_of_mem_messages hm))
      exact ran_step h hspares (hdone.ran q (hsame ▸ hq') hid hwet m hm hold)
    · have hran := processItem_ran m.item world h.ended (resourceTypes_ne_nil hm)
        ((dryRun_of_mem_messages hm).trans hwet) (by rw [hout])
      rw [hout, jobId_of_mem_messages hm, hid] at hran
      exact hran

/-! ## Complete jobs -/

/-- The job is complete, and a worker that checks it next sees to its evaluation. -/
def Counted (fp : Arith) (s : State) (q : Request) : Prop :=
  isJobComplete s.store q.job.jobId q.job.totalItems = true ∧
    ∀ w, ∀ m ∈ q.messages, s.workers.get? w = some (m, .acked) →
      ((step fp (step fp s (.worker w .check)) (.worker w .claim)).evaluation.get?
        q.job.jobId).isSome

/-- The (account, region) pairs a request names. -/
def Request.scopes (q : Request) : List (String × String) :=
  q.targets.flatMap fun t => (regionsOf t).map fun region => (t.awsAccountId, region)

theorem map_scope_items (q : Request) : q.items.map WorkItem.scope = q.scopes := by
  simp only [Request.items, workItems, Request.scopes, List.map_flatMap, List.map_map]
  rfl

theorem length_items (q : Request) : q.items.length = q.job.totalItems :=
  (workItems_length _ _ _ _).trans q.total.symm

theorem exists_message {item : WorkItem} (hitem : item ∈ q.items) :
    ∃ m ∈ q.messages, m.item = item := by
  obtain ⟨i, hi, rfl⟩ := List.mem_iff_getElem.1 hitem
  refine ⟨⟨q.first + i, q.items[i]⟩, List.mem_map.2 ⟨(q.items[i], q.first + i), ?_, rfl⟩, rfl⟩
  rw [List.mk_mem_zipIdx_iff_le_and_getElem?_sub]
  simp [hi]

theorem isJobComplete_request (h : Inv s) (hq : q ∈ s.requests) :
    isJobComplete s.store q.job.jobId q.job.totalItems = true ↔
      q.scopes.Nodup ∧ ∀ m ∈ q.messages, Ran q.job.jobId s.store m.item := by
  rw [← length_items, isJobComplete_iff (h.covered q hq) h.ended, map_scope_items]
  refine and_congr_right fun _ => ⟨fun hran m hm => hran m.item (item_of_mem_messages hm), ?_⟩
  intro hran item hitem
  obtain ⟨m, hm, rfl⟩ := exists_message hitem
  exact hran m hm

/-- A worker that has acked an item of a complete job claims its evaluation, or finds it claimed. -/
theorem counted_of_complete (h : Inv s) (hq : q ∈ s.requests)
    (hcomplete : isJobComplete s.store q.job.jobId q.job.totalItems = true) :
    Counted fp s q := by
  refine ⟨hcomplete, fun w m hm hheld => ?_⟩
  have hid := jobId_of_mem_messages hm
  have hjob : getJob s.store q.job.jobId = some q.job := h.jobs q hq
  have hcheck : step fp s (.worker w .check) =
      (s.mark (.saw w q.job.jobId s.store)).hold w m .complete := by
    simp only [step, hheld, workerStep, hid, hjob, hcomplete, if_true]
  have hnext : (step fp s (.worker w .check)).workers.get? w = some (m, .complete) := by
    rw [hcheck, State.hold, Dict.get?_set, if_pos rfl]
  have hclaim : step fp (step fp s (.worker w .check)) (.worker w .claim) =
      workerStep fp (step fp s (.worker w .check)) w m .complete .claim := by
    rw [step, hnext]
  rw [hclaim]
  cases hstatus : (step fp s (.worker w .check)).evaluation.get? q.job.jobId with
  | some status => simp [workerStep, hid, hstatus, State.free]
  | none =>
    simp [workerStep, hid, hstatus, State.hold, State.mark, State.setStatus, Dict.get?_set]

theorem done_start (job : Uuid) : Done job start := by
  constructor
  · intro m hm
    cases hm
  · intro q hq
    cases hq

/-- When every item of a request has been collected successfully, its job is complete exactly when
the request is not dry and names no (account, region) twice. -/
theorem counted_iff (fp : Arith) (es : List Event) (job : Uuid)
    (hspared : Along (step fp) (Spares job) start es) :
    ∀ q ∈ (exec (step fp) start es).requests, q.job.jobId = job →
      (∀ m ∈ q.messages, .succeeded m ∈ (exec (step fp) start es).log) →
      (Counted fp (exec (step fp) start es) q ↔ q.dryRun = false ∧ q.scopes.Nodup) := by
  have hrun : Inv (exec (step fp) start es) ∧ Done job (exec (step fp) start es) :=
    Along.exec_inv (I := fun s => Inv s ∧ Done job s)
      (fun s e hs hspares => ⟨hs.1.step e, done_step hs.1 hs.2 hspares⟩)
      ⟨inv_start, done_start job⟩ hspared
  obtain ⟨h, hdone⟩ := hrun
  generalize exec (step fp) start es = s at h hdone
  intro q hq hid hall
  have hcounted : Counted fp s q ↔ q.scopes.Nodup ∧
      ∀ m ∈ q.messages, Ran q.job.jobId s.store m.item := by
    rw [← isJobComplete_request h hq]
    exact ⟨fun hcounted => hcounted.1, counted_of_complete h hq⟩
  rw [hcounted]
  constructor
  · rintro ⟨hnodup, hran⟩
    refine ⟨?_, hnodup⟩
    by_contra hdry
    rw [Bool.not_eq_false] at hdry
    have hitems : q.items ≠ [] := workItems_ne_nil q.nonempty
    obtain ⟨item, hitem⟩ := List.exists_mem_of_ne_nil _ hitems
    obtain ⟨m, hm, _⟩ := exists_message hitem
    obtain ⟨a, _, r, hr, hjob, _⟩ := hran m hm
    exact h.dry q hq hdry r hr hjob
  · rintro ⟨hwet, hnodup⟩
    refine ⟨hnodup, fun m hm => ?_⟩
    rw [hid]
    exact hdone.ran q hq hid hwet m hm (hall m hm)

end

/-! ## Two requests -/

def emptyScan : World where
  assumeRole := none
  job := fun _ _ => ⟨false, 10, [], .completed, 20, 30⟩
  correlatedAt := fun _ => 40

def volumesOf (regions : List String) : TargetAccount where
  awsAccountId := "111122223333"
  roleArn := none
  externalId := none
  name := none
  regions := some regions
  resourceTypes := some ["ec2_volume"]

/-- The message is delivered, collected, acked, and its job is checked. -/
def collectMessage (serial : Nat) : List Event :=
  [.receive 0 serial, .worker 0 .lookup, .worker 0 (.collect emptyScan), .worker 0 .ack,
    .worker 0 .check]

/-- A request for the volumes of these regions, and the successful collection of its items. -/
def collectAll (regions : List String) (dryRun : Bool) : List Event :=
  .request "ops" [volumesOf regions] false dryRun regions.length ::
    (List.range regions.length).flatMap collectMessage

/-- All items of a request have been collected successfully. -/
def allSucceeded (s : State) (q : Request) : Bool :=
  q.messages.all fun m => decide (.succeeded m ∈ s.log)

theorem succeeded_of_allSucceeded {s : State} {q : Request} (h : allSucceeded s q = true) :
    ∀ m ∈ q.messages, .succeeded m ∈ s.log := fun m hm =>
  of_decide_eq_true (List.all_eq_true.1 h m hm)

theorem two_regions_counted :
    ∃ q ∈ (exec (step .exact) start (collectAll ["eu-west-1", "eu-west-3"] false)).requests,
      Counted .exact (exec (step .exact) start (collectAll ["eu-west-1", "eu-west-3"] false)) q := by
  have hrun : ((exec (step .exact) start (collectAll ["eu-west-1", "eu-west-3"] false)).requests.any
      fun q => allSucceeded (exec (step .exact) start (collectAll ["eu-west-1", "eu-west-3"] false)) q
        && !q.dryRun && decide q.scopes.Nodup && decide (q.job.jobId = 0)) = true := by
    decide +kernel
  obtain ⟨q, hq, hrun⟩ := List.any_eq_true.1 hrun
  simp only [Bool.and_eq_true, Bool.not_eq_true', decide_eq_true_eq] at hrun
  obtain ⟨⟨⟨hall, hwet⟩, hnodup⟩, hid⟩ := hrun
  refine ⟨q, hq, (counted_iff .exact _ 0 ?_ q hq hid (succeeded_of_allSucceeded hall)).2
    ⟨hwet, hnodup⟩⟩
  simp [collectAll, collectMessage, Along, Spares, List.range_succ]

/-- A run that collects all items of a request and leaves its job incomplete. -/
def LeavesIncomplete (es : List Event) : Prop :=
  ∃ q ∈ (exec (step .exact) start es).requests,
    (∀ m ∈ q.messages, .succeeded m ∈ (exec (step .exact) start es).log) ∧
      ¬ Counted .exact (exec (step .exact) start es) q

theorem leavesIncomplete_of_run {es : List Event}
    (h : ((exec (step .exact) start es).requests.any fun q =>
      allSucceeded (exec (step .exact) start es) q &&
        !isJobComplete (exec (step .exact) start es).store q.job.jobId q.job.totalItems) = true) :
    LeavesIncomplete es := by
  obtain ⟨q, hq, hrun⟩ := List.any_eq_true.1 h
  obtain ⟨hall, hincomplete⟩ := Bool.and_eq_true_iff.1 hrun
  refine ⟨q, hq, succeeded_of_allSucceeded hall, fun hcounted => ?_⟩
  rw [hcounted.1] at hincomplete
  cases hincomplete

/-- A region that is named twice, or a dry run: all items are collected successfully, and the job
is not complete. -/
theorem repeated_or_dry_incomplete :
    LeavesIncomplete (collectAll ["eu-west-1", "eu-west-1"] false) ∧
      LeavesIncomplete (collectAll ["eu-west-1"] true) :=
  ⟨leavesIncomplete_of_run (by decide +kernel), leavesIncomplete_of_run (by decide +kernel)⟩

end Evaluation

end Constat
