import Constat.CollectJobs
import Constat.QueueRun

/-!
# Outbox

`create_and_enqueue_collect_job` as the steps it makes: the job row is committed, then the queue
send is called, and what the send raises is recorded on the job row in a transaction of its own.
Requests, their sends and the workers that drain the queue are interleaved in any order, and a send
to SQS, which goes message by message, may fail at any of them.

* `Queue`   — the in-memory queue, or SQS as the messages it holds.
* `ordered` — in every state every message in the queue belongs to a committed job, no job row goes
              away, an error is recorded exactly for the sends that raised, and a send to the
              in-memory queue takes all items or none.
-/

namespace Constat

namespace Outbox

open Trace CollectJobs

open Collector (TargetAccount)

inductive Queue where
  | inline (q : InProcessQueue)
  | sqs (messages : List WorkItem)

def Queue.messages : Queue → List WorkItem
  | .inline q => q.state.entries.map (·.item)
  | .sqs messages => messages

/-- Where a request is after the commit of its job row. -/
inductive Phase where
  | sending (rest : List WorkItem)
  | raised (e : PyError)
  | done (failed : Bool)
deriving DecidableEq

/-- `enqueue_error` is a column that the ORM does not map. -/
structure State where
  store : Store
  enqueueError : Dict Uuid String
  queue : Queue
  phase : Dict Uuid Phase

def start (store : Store) (queue : Queue) : State := ⟨store, .empty, queue, .empty⟩

structure Request where
  actor : String
  targets : List TargetAccount
  force : Bool
  dryRun : Bool

/-- What `send_message` does; the message may be in the queue although the call raised. -/
inductive SendMessage where
  | accepted
  | raises (e : PyError) (delivered : Bool)

inductive Event where
  | request (r : Request)
  /-- The next thing the send of a job does. -/
  | send (job : Uuid) (outcome : SendMessage)
  /-- `get_queue` raises before anything is sent. -/
  | noQueue (job : Uuid) (e : PyError)
  | record (job : Uuid)
  | receive (maxItems : Nat) (clock : List Micros)
  | ack (receipt : Uuid)
  | nack (receipt : Uuid) (delaySeconds : Int) (now : Micros)
  /-- SQS deletes a message, after an ack or a redrive. -/
  | delete (index : Nat)

def queueFull (q : QueueState) (n : Nat) : PyError :=
  ⟨"QueueFullError", "collect queue is full (" ++ toString q.pendingCount ++ "/" ++
    toString q.maxsize ++ " items); refusing " ++ toString n ++ " more"⟩

def sqsSendFailed (item : WorkItem) : PyError :=
  ⟨"RuntimeError", "SQS send failed at item " ++ item.awsAccountId ++ "/" ++ item.region ++
    " (job " ++ Uuid.text item.jobId ++ "); earlier items in this batch are already sent"⟩

def request (s : State) (r : Request) : State :=
  let (session, job, items) :=
    createAndEnqueueCollectJob (.begin s.store) r.actor r.targets r.force r.dryRun
  { s with store := session.close, phase := s.phase.set job.jobId (.sending items) }

/-- The in-memory queue takes the items under its lock, all or none. -/
def sendInline (s : State) (q : InProcessQueue) (job : Uuid) (items : List WorkItem) : State :=
  match q.send items with
  | none => { s with phase := s.phase.set job (.raised (queueFull q.state items.length)) }
  | some q => { s with queue := .inline q, phase := s.phase.set job (.done false) }

def sendSqs (s : State) (messages : List WorkItem) (job : Uuid) (rest : List WorkItem)
    (outcome : SendMessage) : State :=
  match rest, outcome with
  | [], _ => { s with phase := s.phase.set job (.done false) }
  | item :: rest, .accepted =>
    { s with queue := .sqs (messages ++ [item]), phase := s.phase.set job (.sending rest) }
  | item :: _, .raises _ delivered =>
    { s with
      queue := .sqs (if delivered then messages ++ [item] else messages)
      phase := s.phase.set job (.raised (sqsSendFailed item)) }

/-- `mark_enqueue_failed` and its commit. -/
def markEnqueueFailed (s : State) (job : Uuid) (e : PyError) : State :=
  { s with
    enqueueError := if (getJob s.store job).isSome then s.enqueueError.set job e.describe
      else s.enqueueError
    phase := s.phase.set job (.done true) }

def step (s : State) : Event → State
  | .request r => request s r
  | .send job outcome =>
    match s.phase.get? job, s.queue with
    | some (.sending items), .inline q => sendInline s q job items
    | some (.sending rest), .sqs messages => sendSqs s messages job rest outcome
    | _, _ => s
  | .noQueue job e =>
    match s.phase.get? job with
    | some (.sending _) => { s with phase := s.phase.set job (.raised e) }
    | _ => s
  | .record job =>
    match s.phase.get? job with
    | some (.raised e) => markEnqueueFailed s job e
    | _ => s
  | .receive maxItems clock =>
    match s.queue with
    | .inline q => { s with queue := .inline (InProcessQueue.inProcess.receive q maxItems clock).1 }
    | .sqs _ => s
  | .ack receipt =>
    match s.queue with
    | .inline q => { s with queue := .inline (InProcessQueue.inProcess.ack q receipt) }
    | .sqs _ => s
  | .nack receipt delaySeconds now =>
    match s.queue with
    | .inline q =>
      { s with queue := .inline (InProcessQueue.inProcess.nack q receipt delaySeconds now) }
    | .sqs _ => s
  | .delete index =>
    match s.queue with
    | .inline _ => s
    | .sqs messages => { s with queue := .sqs (messages.eraseIdx index) }

/-! ## What holds -/

/-- In every state, also between the steps of a request. -/
structure Ordered (s : State) : Prop where
  owned : ∀ item ∈ s.queue.messages, (getJob s.store item.jobId).isSome = true
  /-- Nothing is recorded while the send is under way; at its end, just when it raised. -/
  sending : ∀ job rest, s.phase.get? job = some (.sending rest) → s.enqueueError.get? job = none
  recorded : ∀ job failed, s.phase.get? job = some (.done failed) →
    ((s.enqueueError.get? job).isSome = true ↔ failed = true)

/-- One send to the in-memory queue, of the items still to be sent. -/
def AllOrNone (s s' : State) : Prop :=
  ∀ q, s.queue = .inline q → ∀ job items, s.phase.get? job = some (.sending items) →
    s'.phase.get? job = some (.sending items) ∨
    (∃ e, s'.phase.get? job = some (.raised e) ∧ s'.queue = s.queue) ∨
    s'.phase.get? job = some (.done false) ∧ s'.queue.messages.Perm (s.queue.messages ++ items)

structure Keeps (s : State) (e : Event) : Prop where
  jobs : ∀ row ∈ s.store.collectJobs, row ∈ (step s e).store.collectJobs
  allOrNone : AllOrNone s (step s e)

/-! ## The invariant -/

structure Inv (s : State) : Prop extends Ordered s where
  rows : ∀ job phase, s.phase.get? job = some phase → (getJob s.store job).isSome = true
  raised : ∀ job e, s.phase.get? job = some (.raised e) → s.enqueueError.get? job = none
  pending : ∀ job items, s.phase.get? job = some (.sending items) → ∀ i ∈ items, i.jobId = job
  errors : ∀ job, (s.enqueueError.get? job).isSome = true → (getJob s.store job).isSome = true

theorem inv_start (store : Store) {queue : Queue} (h : queue.messages = []) :
    Inv (start store queue) where
  owned item hitem := by rw [start, h] at hitem; cases hitem
  sending job rest _ := rfl
  recorded job failed hphase := by cases hphase
  rows job phase hphase := by cases hphase
  raised job e _ := rfl
  pending job items hphase := by cases hphase
  errors job herr := by cases herr

/-- The store of a request: one job row more. -/
theorem store_request (s : State) (r : Request) :
    (request s r).store.collectJobs =
      s.store.collectJobs.put (newJob s.store r.actor r.targets) := rfl

theorem getJob_put {s : Store} {t : Store} {row : CollectJobRow}
    (h : t.collectJobs = s.collectJobs.put row) {job : Uuid}
    (hjob : (getJob s job).isSome = true) : (getJob t job).isSome = true := by
  rw [getJob, h, Table.get?_put]
  split
  · rfl
  · exact hjob

/-- The job of a request is new. -/
theorem getJob_next (s : Store) (actor : String) (targets : List TargetAccount) :
    getJob s (newJob s actor targets).jobId = none :=
  Table.get?_eq_none.2 fun _ hrow => Table.fresh_next hrow

theorem Inv.request {s : State} (h : Inv s) (r : Request) : Inv (request s r) := by
  have hput := store_request s r
  have hphase : ∀ job, (Outbox.request s r).phase.get? job =
      if job = (newJob s.store r.actor r.targets).jobId then
        some (.sending (workItems (newJob s.store r.actor r.targets).jobId r.targets r.force
          r.dryRun)) else s.phase.get? job := fun job => Dict.get?_set _ _ _ _
  have hnone : s.enqueueError.get? (newJob s.store r.actor r.targets).jobId = none := by
    rw [← Option.not_isSome_iff_eq_none]
    intro herr
    have hjob := h.errors _ herr
    rw [getJob_next] at hjob
    cases hjob
  refine ⟨⟨fun item hitem => ?_, fun job rest hrest => ?_, fun job failed hdone => ?_⟩,
    fun job phase hp => ?_, fun job e he => ?_, fun job items hitems => ?_, fun job herr => ?_⟩
  · exact getJob_put hput (h.owned item hitem)
  · rw [hphase] at hrest
    split at hrest
    · rename_i hjob
      rw [hjob]
      exact hnone
    · exact h.sending job rest hrest
  · rw [hphase] at hdone
    split at hdone
    · cases hdone
    · exact h.recorded job failed hdone
  · rw [hphase] at hp
    split at hp
    · rename_i hjob
      rw [getJob, hput, Table.get?_put, if_pos hjob]
      rfl
    · exact getJob_put hput (h.rows job phase hp)
  · rw [hphase] at he
    split at he
    · cases he
    · exact h.raised job e he
  · rw [hphase] at hitems
    split at hitems
    · rename_i hjob
      cases hitems
      intro i hi
      rw [hjob]
      exact jobId_of_mem_workItems hi
    · exact h.pending job items hitems
  · exact getJob_put hput (h.errors job herr)

/-- A step of the send of `job`: its phase moves on, and the queue gets some of its items. -/
theorem Inv.sent {s : State} (h : Inv s) {job : Uuid} {items : List WorkItem}
    (hjob : s.phase.get? job = some (.sending items)) {queue : Queue} {phase : Phase}
    (hqueue : ∀ i ∈ queue.messages, i ∈ s.queue.messages ∨ i ∈ items)
    (hphase : phase = .done false ∨ (∃ e, phase = .raised e) ∨
      ∃ rest, phase = .sending rest ∧ ∀ i ∈ rest, i ∈ items) :
    Inv { s with queue := queue, phase := s.phase.set job phase } := by
  have hpending := h.pending job items hjob
  have hnone := h.sending job items hjob
  have hrow := h.rows job _ hjob
  have hget : ∀ j, (s.phase.set job phase).get? j =
      if j = job then some phase else s.phase.get? j := fun j => Dict.get?_set _ _ _ _
  refine ⟨⟨fun item hitem => ?_, fun j rest hrest => ?_, fun j failed hdone => ?_⟩,
    fun j p hp => ?_, fun j e he => ?_, fun j items' hitems => ?_, h.errors⟩
  · rcases hqueue item hitem with hold | hnew
    · exact h.owned item hold
    · rw [hpending item hnew]
      exact hrow
  · simp only [hget] at hrest
    split at hrest
    · rename_i hj
      rw [hj]
      exact hnone
    · exact h.sending j rest hrest
  · simp only [hget] at hdone
    split at hdone
    · rename_i hj
      cases hdone
      rw [hj, hnone]
      rcases hphase with hphase | ⟨_, hphase⟩ | ⟨_, hphase, _⟩ <;> cases hphase
      simp
    · exact h.recorded j failed hdone
  · simp only [hget] at hp
    split at hp
    · rename_i hj
      rw [hj]
      exact hrow
    · exact h.rows j p hp
  · simp only [hget] at he
    split at he
    · rename_i hj
      rw [hj]
      exact hnone
    · exact h.raised j e he
  · simp only [hget] at hitems
    split at hitems
    · rename_i hj
      cases hitems
      rcases hphase with hphase | ⟨_, hphase⟩ | ⟨rest, hphase, hrest⟩ <;> cases hphase
      rw [hj]
      exact fun i hi => hpending i (hrest i hi)
    · exact h.pending j items' hitems

theorem messages_foldl_append (items : List WorkItem) (q : QueueState) :
    ((items.foldl QueueState.append q).entries.map (·.item)).Perm
      (q.entries.map (·.item) ++ items) := by
  induction items generalizing q with
  | nil => rw [List.append_nil]; exact .refl _
  | cons item items ih =>
    refine (ih (q.append item)).trans ?_
    refine (((QueueState.entries_append q item).map (·.item)).append_right items).trans ?_
    rw [List.map_cons, List.cons_append]
    exact List.perm_middle.symm

theorem messages_send {q q' : InProcessQueue} {items : List WorkItem}
    (h : q.send items = some q') :
    (Queue.inline q').messages.Perm ((Queue.inline q).messages ++ items) := by
  have hstate : ∀ {q q' : QueueState}, q.send items = some q' →
      (q'.entries.map (·.item)).Perm (q.entries.map (·.item) ++ items) := by
    intro q q' hsend
    simp only [QueueState.send] at hsend
    split at hsend
    · rename_i hnil
      cases hsend
      rw [List.isEmpty_iff.1 hnil, List.append_nil]
    · split at hsend
      · cases hsend
      · cases hsend
        exact messages_foldl_append items q
  simp only [InProcessQueue.send] at h
  split at h
  · cases h
  · rename_i state hsend
    cases h
    exact hstate hsend

theorem Inv.sendInline {s : State} (h : Inv s) {q : InProcessQueue} (hq : s.queue = .inline q)
    {job : Uuid} {items : List WorkItem} (hjob : s.phase.get? job = some (.sending items)) :
    Inv (sendInline s q job items) := by
  simp only [Outbox.sendInline]
  split
  · exact h.sent hjob (fun i hi => .inl hi) (.inr (.inl ⟨_, rfl⟩))
  · rename_i q' hsend
    refine h.sent hjob (fun i hi => ?_) (.inl rfl)
    rw [hq]
    exact List.mem_append.1 ((messages_send hsend).mem_iff.1 hi)

theorem Inv.sendSqs {s : State} (h : Inv s) {messages : List WorkItem} (hq : s.queue = .sqs messages)
    {job : Uuid} {rest : List WorkItem} (hjob : s.phase.get? job = some (.sending rest))
    (outcome : SendMessage) : Inv (sendSqs s messages job rest outcome) := by
  have hone : ∀ item rest', rest = item :: rest' → ∀ i ∈ (Queue.sqs (messages ++ [item])).messages,
      i ∈ s.queue.messages ∨ i ∈ rest := by
    intro item rest' hrest i hi
    rw [hq, hrest]
    rcases List.mem_append.1 hi with hi | hi
    · exact .inl hi
    · exact .inr (List.mem_cons.2 (.inl (List.mem_singleton.1 hi)))
  cases rest with
  | nil => exact h.sent hjob (fun i hi => .inl hi) (.inl rfl)
  | cons item rest =>
    cases outcome with
    | accepted =>
      exact h.sent hjob (hone item rest rfl)
        (.inr (.inr ⟨rest, rfl, fun i hi => List.mem_cons_of_mem _ hi⟩))
    | raises e delivered =>
      refine h.sent hjob (fun i hi => ?_) (.inr (.inl ⟨_, rfl⟩))
      cases delivered with
      | true => exact hone item rest rfl i hi
      | false =>
        rw [hq]
        exact .inl hi

theorem Inv.markEnqueueFailed {s : State} (h : Inv s) {job : Uuid} {e : PyError}
    (hjob : s.phase.get? job = some (.raised e)) : Inv (markEnqueueFailed s job e) := by
  have hrow := h.rows job _ hjob
  have hget : ∀ j, (s.phase.set job (.done true)).get? j =
      if j = job then some (.done true) else s.phase.get? j := fun j => Dict.get?_set _ _ _ _
  have herror : ∀ j, (s.enqueueError.set job e.describe).get? j =
      if j = job then some e.describe else s.enqueueError.get? j := fun j => Dict.get?_set _ _ _ _
  rw [Outbox.markEnqueueFailed, if_pos hrow]
  refine ⟨⟨h.owned, fun j rest hrest => ?_, fun j failed hdone => ?_⟩, fun j p hp => ?_,
    fun j e' he => ?_, fun j items hitems => ?_, fun j herr => ?_⟩ <;>
    simp only [hget, herror] at * <;> by_cases hj : j = job
  · simp [hj] at hrest
  · simp only [hj, if_false] at hrest ⊢
    exact h.sending j rest hrest
  · simp only [hj, if_true, Option.some.injEq, Phase.done.injEq] at hdone ⊢
    simp [← hdone]
  · simp only [hj, if_false] at hdone ⊢
    exact h.recorded j failed hdone
  · rw [hj]
    exact hrow
  · simp only [hj, if_false] at hp
    exact h.rows j p hp
  · simp [hj] at he
  · simp only [hj, if_false] at he ⊢
    exact h.raised j e' he
  · simp [hj] at hitems
  · simp only [hj, if_false] at hitems
    exact h.pending j items hitems
  · rw [hj]
    exact hrow
  · simp only [hj, if_false] at herr
    exact h.errors j herr

/-- A worker adds no message. -/
theorem Inv.drained {s : State} (h : Inv s) {queue : Queue}
    (hqueue : ∀ i ∈ queue.messages, i ∈ s.queue.messages) : Inv { s with queue := queue } :=
  { h with owned := fun item hitem => h.owned item (hqueue item hitem) }

theorem messages_receive (q : InProcessQueue) (maxItems : Nat) (clock : List Micros) :
    (Queue.inline (InProcessQueue.inProcess.receive q maxItems clock).1).messages.Perm
      (Queue.inline q).messages := by
  obtain ⟨taken, rest, hout, hq, hq'⟩ :=
    (QueueState.delivers_receive q.wf maxItems clock).split
  rw [hout] at hq'
  refine (hq'.map (·.item)).trans (.trans (.of_eq ?_) (hq.map (·.item)).symm)
  rw [List.map_append, List.map_append, List.map_map]
  rfl

theorem Inv.step {s : State} (h : Inv s) (e : Event) : Inv (step s e) := by
  cases e with
  | request r => exact h.request r
  | send job outcome =>
    simp only [Outbox.step]
    split
    · rename_i items q hjob hq
      exact h.sendInline hq hjob
    · rename_i rest messages hjob hq
      exact h.sendSqs hq hjob outcome
    · exact h
  | noQueue job e =>
    simp only [Outbox.step]
    split
    · rename_i items hjob
      exact h.sent hjob (fun i hi => .inl hi) (.inr (.inl ⟨e, rfl⟩))
    · exact h
  | record job =>
    simp only [Outbox.step]
    split
    · rename_i e hjob
      exact h.markEnqueueFailed hjob
    · exact h
  | receive maxItems clock =>
    simp only [Outbox.step]
    split
    · rename_i q hq
      refine h.drained fun i hi => ?_
      rw [hq]
      exact (messages_receive q maxItems clock).mem_iff.1 hi
    · exact h
  | ack receipt =>
    simp only [Outbox.step]
    split
    · rename_i q hq
      refine h.drained fun i hi => ?_
      rw [hq]
      exact ((QueueState.entries_ack_sublist q.state receipt).map (·.item)).subset hi
    · exact h
  | nack receipt delaySeconds now =>
    simp only [Outbox.step]
    split
    · rename_i q hq
      refine h.drained fun i hi => ?_
      rw [hq]
      have hperm := QueueState.entries_nackFor q.state receipt (delaySeconds * 1000000) now
      rw [← QueueState.nack_eq] at hperm
      exact (hperm.map (·.item)).mem_iff.1 hi
    · exact h
  | delete index =>
    simp only [Outbox.step]
    split
    · exact h
    · rename_i messages hq
      refine h.drained fun i hi => ?_
      rw [hq]
      exact List.mem_of_mem_eraseIdx hi

/-! ## One step -/

theorem jobs_kept (s : State) (e : Event) :
    ∀ row ∈ s.store.collectJobs, row ∈ (step s e).store.collectJobs := by
  intro row hrow
  cases e with
  | request r =>
    rw [step, store_request, Table.mem_put]
    exact .inr ⟨hrow, Table.fresh_next hrow⟩
  | send job outcome =>
    simp only [step]
    split
    · simp only [sendInline]
      split <;> exact hrow
    · simp only [sendSqs]
      split <;> exact hrow
    · exact hrow
  | noQueue job e => simp only [step]; split <;> exact hrow
  | record job => simp only [step]; split <;> exact hrow
  | receive maxItems clock => simp only [step]; split <;> exact hrow
  | ack receipt => simp only [step]; split <;> exact hrow
  | nack receipt delaySeconds now => simp only [step]; split <;> exact hrow
  | delete index => simp only [step]; split <;> exact hrow

theorem get?_set_ne {s : State} {job other : Uuid} {phase : Phase} (h : other ≠ job) :
    (s.phase.set job phase).get? other = s.phase.get? other := by
  rw [Dict.get?_set, if_neg h]

theorem allOrNone_step {s : State} (h : Inv s) (e : Event) : AllOrNone s (step s e) := by
  intro q hq job items hjob
  cases e with
  | request r =>
    refine .inl ((get?_set_ne ?_).trans hjob)
    rintro rfl
    have hrow := h.rows _ _ hjob
    have hnone := getJob_next s.store r.actor r.targets
    rw [Option.isSome_iff_ne_none] at hrow
    exact hrow hnone
  | send other outcome =>
    simp only [step, hq]
    split
    · rename_i items' q' hother hq'
      cases hq'
      by_cases hne : job = other
      · subst hne
        rw [hjob] at hother
        cases hother
        simp only [sendInline]
        split
        · exact .inr (.inl ⟨_, by rw [Dict.get?_set, if_pos rfl], hq⟩)
        · rename_i q'' hsend
          exact .inr (.inr ⟨by rw [Dict.get?_set, if_pos rfl], messages_send hsend⟩)
      · simp only [sendInline]
        split <;> exact .inl ((get?_set_ne hne).trans hjob)
    · rename_i hq'
      cases hq'
    · exact .inl hjob
  | noQueue other e =>
    simp only [step]
    split
    · by_cases hne : job = other
      · exact .inr (.inl ⟨e, by rw [Dict.get?_set, if_pos hne], rfl⟩)
      · exact .inl ((get?_set_ne hne).trans hjob)
    · exact .inl hjob
  | record other =>
    simp only [step]
    split
    · rename_i e hother
      have hne : job ≠ other := by
        rintro rfl
        rw [hjob] at hother
        cases hother
      exact .inl ((get?_set_ne hne).trans hjob)
    · exact .inl hjob
  | receive maxItems clock => simp only [step]; split <;> exact .inl hjob
  | ack receipt => simp only [step]; split <;> exact .inl hjob
  | nack receipt delaySeconds now => simp only [step]; split <;> exact .inl hjob
  | delete index => simp only [step]; split <;> exact .inl hjob

/-- Over any interleaving of requests, sends with their failures and workers: the job row comes
first and stays, and what a send raised is on it. -/
theorem ordered (store : Store) (queue : Queue) (hqueue : queue.messages = []) (es : List Event) :
    Always step Ordered (start store queue) es ∧ Along step Keeps (start store queue) es := by
  have hinv := inv_start store hqueue
  have hgood : Along step (fun _ _ => True) (start store queue) es :=
    Along.of_prefix fun _ _ _ _ => trivial
  exact ⟨(Along.always (fun _ e h _ => h.step e) hinv hgood).mono fun _ h => h.toOrdered,
    Along.imp_of_inv (fun _ e h => h.step e)
      (fun s e h _ => ⟨jobs_kept s e, allOrNone_step h e⟩) hinv hgood⟩

def twoRegions : TargetAccount where
  awsAccountId := "123456789012"
  roleArn := none
  externalId := none
  name := none
  regions := some ["eu-west-1", "eu-west-3"]
  resourceTypes := none

/-- SQS takes the first of two messages and fails at the second. -/
def partialSend : List Event :=
  [.request ⟨"ops", [twoRegions], false, false⟩, .send 0 .accepted,
    .send 0 (.raises ⟨"ClientError", "throttled"⟩ false), .record 0]

theorem partialSend_ordered : Always step Ordered (start .empty (.sqs [])) partialSend ∧
    Along step Keeps (start .empty (.sqs [])) partialSend :=
  ordered .empty (.sqs []) rfl partialSend

end Outbox

end Constat
