import Constat.Lib.Trace
import Constat.CollectQueue
import Constat.Py.Error

/-!
# Worker

`worker.py`: the drain loop of a collect worker. `drainOnce` receives a batch and settles its
items one after the other: an orphan is ack-dropped, an item of a busy account is deferred, and
every other item is collected and then acked (with the evaluation of its job after the ack) or
nacked.

What the loop calls is a `Handlers`: the job lookup, the collector, the evaluation, each with its
way to raise, and whatever other threads do to the shared limiter meanwhile. The calls of the loop
on the queue are kept in a log, so "settled exactly once" is a count.

* `stepCalls` — the calls one item makes; `drainStep_calls` says that they are all.
* `Quiet` — nothing raises where the loop does not expect it: neither the lookup, which runs
  outside the `try`, nor the evaluation, which runs after the ack.
* `drainOnce_settles_iff` — every received item is settled by exactly one ack or nack if and only
  if the drain is quiet.
* `drainOnce_inFlight` — a quiet drain of the in-memory queue leaves none of its items in flight.
-/

namespace Constat

namespace Worker

open Trace

def nackBackoffBaseSeconds : Int := 30
def nackBackoffMaxSeconds : Int := 300
def busyAccountDelaySeconds : Int := 5

inductive ItemStatus where
  | success
  | failed
  | deferred
  | dropped
deriving DecidableEq

structure ItemOutcome where
  item : WorkItem
  status : ItemStatus
  errors : List String
deriving DecidableEq

/-! ## The per-account limiter -/

/-- In-flight counts by account, with the cap the constructor checks. -/
structure PerAccountLimiter where
  max : Nat
  one_le_max : 1 ≤ max
  counts : Dict String Nat

namespace PerAccountLimiter

def inFlight (l : PerAccountLimiter) (account : String) : Nat := (l.counts.get? account).getD 0

/-- Take a slot for the account; `none` when it is at the cap. -/
def tryAcquire (l : PerAccountLimiter) (account : String) : Option PerAccountLimiter :=
  if l.inFlight account ≥ l.max then none
  else some { l with counts := l.counts.set account (l.inFlight account + 1) }

def release (l : PerAccountLimiter) (account : String) : PerAccountLimiter :=
  if l.inFlight account ≤ 1 then { l with counts := l.counts.pop account }
  else { l with counts := l.counts.set account (l.inFlight account - 1) }

def fresh : PerAccountLimiter := ⟨1, Nat.le_refl 1, .empty⟩

end PerAccountLimiter

/-- 30 s times the attempt, capped; `attempts` is the delivery count. -/
def backoffSeconds (attempts : Nat) : Int :=
  min (nackBackoffBaseSeconds * max (attempts : Int) 1) nackBackoffMaxSeconds

/-! ## The drain loop -/

/-- What the drain loop calls, over a world `σ`. `processItem` returns the errors of the
collection result. -/
structure Handlers (σ : Type) where
  jobExists : σ → WorkItem → Except PyError Bool × σ
  processItem : σ → WorkItem → Except PyError (List String) × σ
  maybeRunEvaluation : σ → WorkItem → Except PyError Unit × σ
  otherThreads : σ → PerAccountLimiter → PerAccountLimiter
  monotonic : σ → Micros

inductive QueueCall (ρ : Type) where
  | ack (receipt : ρ)
  | nack (receipt : ρ) (delaySeconds : Int)
deriving DecidableEq

def QueueCall.receipt {ρ : Type} : QueueCall ρ → ρ
  | .ack r => r
  | .nack r _ => r

structure Drain (σ Q ρ : Type) where
  world : σ
  queue : Q
  limiter : PerAccountLimiter
  calls : List (QueueCall ρ)
  outcomes : List ItemOutcome
  /-- The exception that left the loop. -/
  raised : Option PyError

section

variable {σ Q ρ : Type}

def Drain.ack (wq : WorkQueue Q ρ) (d : Drain σ Q ρ) (receipt : ρ) : Drain σ Q ρ :=
  { d with queue := wq.ack d.queue receipt, calls := d.calls ++ [.ack receipt] }

def Drain.nack (h : Handlers σ) (wq : WorkQueue Q ρ) (d : Drain σ Q ρ) (receipt : ρ)
    (delaySeconds : Int) : Drain σ Q ρ :=
  { d with
    queue := wq.nack d.queue receipt delaySeconds (h.monotonic d.world)
    calls := d.calls ++ [.nack receipt delaySeconds] }

def Drain.outcome (d : Drain σ Q ρ) (item : WorkItem) (status : ItemStatus)
    (errors : List String) : Drain σ Q ρ :=
  { d with outcomes := d.outcomes ++ [⟨item, status, errors⟩] }

/-- The `except` branch: whatever was raised, nack with backoff. -/
def itemFailed (h : Handlers σ) (wq : WorkQueue Q ρ) (d : Drain σ Q ρ) (r : ReceivedItem ρ)
    (e : PyError) : Drain σ Q ρ :=
  (d.nack h wq r.receipt (backoffSeconds r.attempts)).outcome r.item .failed [e.describe]

/-- The `try` block: collect, then ack and evaluate, or nack. -/
def tryItem (h : Handlers σ) (wq : WorkQueue Q ρ) (d : Drain σ Q ρ) (r : ReceivedItem ρ) :
    Drain σ Q ρ :=
  match h.processItem d.world r.item with
  | (.error e, w) => itemFailed h wq { d with world := w } r e
  | (.ok [], w) =>
    let d := Drain.ack wq { d with world := w } r.receipt
    match h.maybeRunEvaluation d.world r.item with
    | (.ok (), w) => Drain.outcome { d with world := w } r.item .success []
    -- the evaluation runs inside the `try`, after the ack
    | (.error e, w) => itemFailed h wq { d with world := w } r e
  | (.ok errors, w) =>
    (Drain.nack h wq { d with world := w } r.receipt (backoffSeconds r.attempts)).outcome r.item
      .failed errors

/-- One item of the batch. Once something has left the loop, the rest is not reached. -/
def drainStep (h : Handlers σ) (wq : WorkQueue Q ρ) (d : Drain σ Q ρ) (r : ReceivedItem ρ) :
    Drain σ Q ρ :=
  match d.raised with
  | some _ => d
  | none =>
    match h.jobExists d.world r.item with
    | (.error e, w) => { d with world := w, raised := some e }
    | (.ok false, w) =>
      (Drain.ack wq { d with world := w } r.receipt).outcome r.item .dropped []
    | (.ok true, w) =>
      match (h.otherThreads w d.limiter).tryAcquire r.item.awsAccountId with
      | none =>
        (Drain.nack h wq { d with world := w } r.receipt busyAccountDelaySeconds).outcome r.item
          .deferred []
      | some limiter =>
        let d := tryItem h wq { d with world := w, limiter := limiter } r
        { d with limiter := (h.otherThreads d.world d.limiter).release r.item.awsAccountId }

def Drain.start (world : σ) (queue : Q) (limiter : PerAccountLimiter) : Drain σ Q ρ where
  world := world
  queue := queue
  limiter := limiter
  calls := []
  outcomes := []
  raised := none

/-- Receive up to `maxItems` and process each one independently. -/
def drainOnce (h : Handlers σ) (wq : WorkQueue Q ρ) (world : σ) (queue : Q)
    (limiter : PerAccountLimiter) (maxItems : Nat) (clock : List Micros) : Drain σ Q ρ :=
  let (queue, received) := wq.receive queue maxItems clock
  exec (drainStep h wq) (.start world queue limiter) received.items

/-! ## What one item can do -/

/-- The ways through the loop body. -/
inductive Path where
  | lookupRaised
  | orphan
  | deferred
  | collectorRaised
  | regionErrors
  | evaluated
  | evaluationRaised
deriving DecidableEq

/-- The way an item takes, from the handlers alone. -/
def path (h : Handlers σ) (world : σ) (limiter : PerAccountLimiter) (item : WorkItem) : Path :=
  match h.jobExists world item with
  | (.error _, _) => .lookupRaised
  | (.ok false, _) => .orphan
  | (.ok true, w) =>
    match (h.otherThreads w limiter).tryAcquire item.awsAccountId with
    | none => .deferred
    | some _ =>
      match h.processItem w item with
      | (.error _, _) => .collectorRaised
      | (.ok [], w) =>
        match h.maybeRunEvaluation w item with
        | (.ok (), _) => .evaluated
        | (.error _, _) => .evaluationRaised
      | (.ok _, _) => .regionErrors

/-- The queue calls of a path. -/
def Path.calls (p : Path) (r : ReceivedItem ρ) : List (QueueCall ρ) :=
  match p with
  | .lookupRaised => []
  | .orphan => [.ack r.receipt]
  | .deferred => [.nack r.receipt busyAccountDelaySeconds]
  | .collectorRaised => [.nack r.receipt (backoffSeconds r.attempts)]
  | .regionErrors => [.nack r.receipt (backoffSeconds r.attempts)]
  | .evaluated => [.ack r.receipt]
  | .evaluationRaised => [.ack r.receipt, .nack r.receipt (backoffSeconds r.attempts)]

theorem Path.receipt_of_mem {p : Path} {r : ReceivedItem ρ} {c : QueueCall ρ}
    (h : c ∈ p.calls r) : c.receipt = r.receipt := by
  cases p <;> simp only [Path.calls, List.mem_cons, List.not_mem_nil, or_false] at h
  case orphan => rw [h]; rfl
  case deferred => rw [h]; rfl
  case collectorRaised => rw [h]; rfl
  case regionErrors => rw [h]; rfl
  case evaluated => rw [h]; rfl
  case evaluationRaised => rcases h with h | h <;> rw [h] <;> rfl

/-- The calls of one step. -/
def stepCalls (h : Handlers σ) (d : Drain σ Q ρ) (r : ReceivedItem ρ) : List (QueueCall ρ) :=
  match d.raised with
  | some _ => []
  | none => (path h d.world d.limiter r.item).calls r

/-- What a step does to the log and to the exception: all it says about the queue is here. -/
theorem drainStep_calls (h : Handlers σ) (wq : WorkQueue Q ρ) (d : Drain σ Q ρ)
    (r : ReceivedItem ρ) :
    (drainStep h wq d r).calls = d.calls ++ stepCalls h d r ∧
      (d.raised = none → ((drainStep h wq d r).raised = none ↔
        path h d.world d.limiter r.item ≠ .lookupRaised)) := by
  cases hr : d.raised with
  | some e =>
    simp only [drainStep, stepCalls, hr, List.append_nil, true_and]
    intro hn; cases hn
  | none =>
    simp only [drainStep, stepCalls, path, hr]
    rcases h.jobExists d.world r.item with ⟨(e | b), w⟩
    · simp [Path.calls]
    · cases b with
      | false => simp [Path.calls, Drain.ack, Drain.outcome]
      | true =>
        simp only
        cases (h.otherThreads w d.limiter).tryAcquire r.item.awsAccountId with
        | none => simp [Path.calls, Drain.nack, Drain.outcome]
        | some limiter =>
          simp only [tryItem]
          rcases h.processItem w r.item with ⟨(e | errors), w⟩
          · simp [Path.calls, itemFailed, Drain.nack, Drain.outcome]
          · cases errors with
            | cons x xs => simp [Path.calls, Drain.nack, Drain.outcome]
            | nil =>
              simp only [Drain.ack]
              rcases h.maybeRunEvaluation w r.item with ⟨(e | u), w⟩
              · simp [Path.calls, itemFailed, Drain.nack, Drain.outcome]
              · simp [Path.calls, Drain.outcome]

/-! ## Every item is settled once -/

variable [DecidableEq ρ]

/-- Exactly one call of the log is about this receipt. -/
def SettledOnce (calls : List (QueueCall ρ)) (receipt : ρ) : Prop :=
  calls.countP (fun c => c.receipt = receipt) = 1

instance (calls : List (QueueCall ρ)) (receipt : ρ) : Decidable (SettledOnce calls receipt) :=
  inferInstanceAs (Decidable (_ = 1))

/-- Nothing raises where the loop does not expect it: the lookup is outside the `try`, and the
evaluation comes after the ack. -/
def Quiet (h : Handlers σ) (d : Drain σ Q ρ) (r : ReceivedItem ρ) : Prop :=
  path h d.world d.limiter r.item ≠ .lookupRaised ∧
    path h d.world d.limiter r.item ≠ .evaluationRaised

omit [DecidableEq ρ] in
theorem Path.calls_length (p : Path) (r : ReceivedItem ρ) :
    (p.calls r).length = 1 ↔ p ≠ .lookupRaised ∧ p ≠ .evaluationRaised := by
  cases p <;> simp [Path.calls]

omit [DecidableEq ρ] in
/-- The calls a run adds are about the items of the run. -/
theorem exec_calls (h : Handlers σ) (wq : WorkQueue Q ρ) (rs : List (ReceivedItem ρ))
    (d : Drain σ Q ρ) : ∃ later, (exec (drainStep h wq) d rs).calls = d.calls ++ later ∧
      ∀ c ∈ later, ∃ r ∈ rs, c.receipt = r.receipt := by
  induction rs generalizing d with
  | nil => exact ⟨[], by rw [exec_nil, List.append_nil], by intro c hc; cases hc⟩
  | cons r rs ih =>
    obtain ⟨later, hl, hmem⟩ := ih (drainStep h wq d r)
    refine ⟨stepCalls h d r ++ later, ?_, ?_⟩
    · rw [exec_cons, hl, (drainStep_calls h wq d r).1, List.append_assoc]
    · intro c hc
      rcases List.mem_append.1 hc with hc | hc
      · refine ⟨r, List.mem_cons_self, ?_⟩
        simp only [stepCalls] at hc
        split at hc
        · cases hc
        · exact Path.receipt_of_mem hc
      · obtain ⟨r', hr', he⟩ := hmem c hc
        exact ⟨r', List.mem_cons_of_mem r hr', he⟩

theorem countP_eq_zero_of_ne {calls : List (QueueCall ρ)} {x : ρ}
    (h : ∀ c ∈ calls, c.receipt ≠ x) : calls.countP (fun c => c.receipt = x) = 0 := by
  rw [List.countP_eq_zero]
  intro c hc
  rw [decide_eq_true_eq]
  exact h c hc

/-- How often the first item of a run is settled: as often as its own step says. -/
theorem countP_head {h : Handlers σ} {wq : WorkQueue Q ρ} {d : Drain σ Q ρ}
    {r : ReceivedItem ρ} {rs : List (ReceivedItem ρ)} (hd : d.raised = none)
    (hold : ∀ c ∈ d.calls, c.receipt ≠ r.receipt) (hnew : ∀ r' ∈ rs, r'.receipt ≠ r.receipt) :
    (exec (drainStep h wq) d (r :: rs)).calls.countP (fun c => c.receipt = r.receipt) =
      ((path h d.world d.limiter r.item).calls r).length := by
  obtain ⟨later, hl, hmem⟩ := exec_calls h wq rs (drainStep h wq d r)
  have hlater : ∀ c ∈ later, c.receipt ≠ r.receipt := by
    intro c hc
    obtain ⟨r', hr', he⟩ := hmem c hc
    rw [he]
    exact hnew r' hr'
  have hown : stepCalls h d r = (path h d.world d.limiter r.item).calls r := by
    rw [stepCalls, hd]
  rw [exec_cons, hl, (drainStep_calls h wq d r).1, hown, List.countP_append, List.countP_append,
    countP_eq_zero_of_ne hold, countP_eq_zero_of_ne hlater, Nat.zero_add, Nat.add_zero,
    List.countP_eq_length]
  intro c hc
  exact decide_eq_true (Path.receipt_of_mem hc)

theorem exec_settles_iff (h : Handlers σ) (wq : WorkQueue Q ρ) :
    ∀ (rs : List (ReceivedItem ρ)) (d : Drain σ Q ρ), (rs.map (·.receipt)).Nodup →
      d.raised = none → (∀ c ∈ d.calls, ∀ r ∈ rs, c.receipt ≠ r.receipt) →
      ((∀ r ∈ rs, SettledOnce (exec (drainStep h wq) d rs).calls r.receipt) ↔
        Along (drainStep h wq) (Quiet h) d rs) := by
  intro rs
  induction rs with
  | nil => intro d _ _ _; exact ⟨fun _ => trivial, fun _ r hr => by cases hr⟩
  | cons r rs ih =>
    intro d hnd hd hold
    rw [List.map_cons, List.nodup_cons] at hnd
    have hnew : ∀ r' ∈ rs, r'.receipt ≠ r.receipt := by
      intro r' hr' he
      exact hnd.1 (List.mem_map.2 ⟨r', hr', he⟩)
    have hhead : SettledOnce (exec (drainStep h wq) d (r :: rs)).calls r.receipt ↔ Quiet h d r := by
      rw [SettledOnce, countP_head hd (fun c hc => hold c hc r List.mem_cons_self) hnew,
        Path.calls_length, Quiet]
    rw [List.forall_mem_cons, hhead, Along]
    refine and_congr_right fun hq => ?_
    -- a quiet step leaves nothing raised and its calls are about `r` alone
    have hd' : (drainStep h wq d r).raised = none := ((drainStep_calls h wq d r).2 hd).2 hq.1
    refine ih _ hnd.2 hd' ?_
    intro c hc r' hr'
    rw [(drainStep_calls h wq d r).1, List.mem_append] at hc
    rcases hc with hc | hc
    · exact hold c hc r' (List.mem_cons_of_mem r hr')
    · rw [stepCalls, hd] at hc
      rw [Path.receipt_of_mem hc]
      exact fun he => hnew r' hr' he.symm

/-- Every item a drain receives is settled by exactly one ack or nack if and only if, for every
item of the batch, neither its job lookup raises nor its evaluation after the ack does. -/
theorem drainOnce_settles_iff (h : Handlers σ) (wq : WorkQueue Q ρ) (world : σ) (queue : Q)
    (limiter : PerAccountLimiter) (maxItems : Nat) (clock : List Micros) :
    (∀ r ∈ (wq.receive queue maxItems clock).2.items,
        SettledOnce (drainOnce h wq world queue limiter maxItems clock).calls r.receipt) ↔
      Along (drainStep h wq) (Quiet h)
        (.start world (wq.receive queue maxItems clock).1 limiter)
        (wq.receive queue maxItems clock).2.items := by
  refine exec_settles_iff h wq _ _ (wq.receive queue maxItems clock).2.nodup rfl ?_
  intro c hc
  cases hc

end

/-! ## The in-memory queue -/

section InProcess

variable {σ : Type}

/-- Whatever the log is about is no longer in flight. -/
def CallsPopped (d : Drain σ InProcessQueue Uuid) : Prop :=
  ∀ c ∈ d.calls, c.receipt ∉ d.queue.state.inFlight.keys

theorem not_mem_keys_pop (d : Dict Uuid (WorkItem × Nat)) (k : Uuid) : k ∉ (d.pop k).keys := by
  rw [← Dict.get?_eq_none, Dict.get?_pop, if_pos rfl]

theorem CallsPopped.of_pop {d d' : Drain σ InProcessQueue Uuid} (hd : CallsPopped d) (x : Uuid)
    (hkeys : d'.queue.state.inFlight.keys ⊆ d.queue.state.inFlight.keys)
    (hx : x ∉ d'.queue.state.inFlight.keys)
    (hcalls : ∀ c ∈ d'.calls, c ∈ d.calls ∨ c.receipt = x) : CallsPopped d' := by
  intro c hc
  rcases hcalls c hc with h | h
  · exact fun hm => hd c h (hkeys hm)
  · rw [h]; exact hx

theorem CallsPopped.ack {d : Drain σ InProcessQueue Uuid} (hd : CallsPopped d) (x : Uuid) :
    CallsPopped (Drain.ack InProcessQueue.inProcess d x) := by
  refine hd.of_pop x (QueueState.keys_pop_sublist _ _).subset (not_mem_keys_pop _ x) ?_
  intro c hc
  rcases List.mem_append.1 hc with h | h
  · exact .inl h
  · rw [List.mem_singleton.1 h]; exact .inr rfl

theorem CallsPopped.nack {d : Drain σ InProcessQueue Uuid} (hd : CallsPopped d)
    (h : Handlers σ) (x : Uuid) (delay : Int) :
    CallsPopped (Drain.nack h InProcessQueue.inProcess d x delay) := by
  have hcalls : ∀ c ∈ (Drain.nack h InProcessQueue.inProcess d x delay).calls,
      c ∈ d.calls ∨ c.receipt = x := by
    intro c hc
    rcases List.mem_append.1 hc with h | h
    · exact .inl h
    · rw [List.mem_singleton.1 h]; exact .inr rfl
  cases hget : d.queue.state.inFlight.get? x with
  | none =>
    have hsame : (d.queue.state.nack x delay (h.monotonic d.world)) = d.queue.state := by
      rw [QueueState.nack, hget]
    refine hd.of_pop x ?_ ?_ hcalls
    · rw [show (Drain.nack h InProcessQueue.inProcess d x delay).queue.state =
        d.queue.state.nack x delay (h.monotonic d.world) from rfl, hsame]
      exact List.Subset.refl _
    · rw [show (Drain.nack h InProcessQueue.inProcess d x delay).queue.state =
        d.queue.state.nack x delay (h.monotonic d.world) from rfl, hsame]
      exact Dict.get?_eq_none.1 hget
  | some p =>
    have hpop : (Drain.nack h InProcessQueue.inProcess d x delay).queue.state.inFlight =
        d.queue.state.inFlight.pop x := by
      rw [show (Drain.nack h InProcessQueue.inProcess d x delay).queue.state =
        d.queue.state.nack x delay (h.monotonic d.world) from rfl, QueueState.nack, hget]
    refine hd.of_pop x ?_ ?_ hcalls
    · rw [hpop]; exact (QueueState.keys_pop_sublist _ _).subset
    · rw [hpop]; exact not_mem_keys_pop _ x

theorem callsPopped_tryItem (h : Handlers σ) {d : Drain σ InProcessQueue Uuid}
    (hd : CallsPopped d) (r : ReceivedItem Uuid) :
    CallsPopped (tryItem h InProcessQueue.inProcess d r) := by
  simp only [tryItem]
  rcases h.processItem d.world r.item with ⟨(e | errors), w⟩
  · exact CallsPopped.nack (d := { d with world := w }) hd h _ _
  · have hw : CallsPopped { d with world := w } := hd
    cases errors with
    | cons x xs => exact hw.nack h _ _
    | nil =>
      simp only
      rcases h.maybeRunEvaluation (Drain.ack InProcessQueue.inProcess { d with world := w }
        r.receipt).world r.item with ⟨(e | u), w'⟩
      · exact CallsPopped.nack (d := { Drain.ack InProcessQueue.inProcess
          { d with world := w } r.receipt with world := w' }) (hw.ack r.receipt) h _ _
      · exact hw.ack r.receipt

theorem callsPopped_drainStep (h : Handlers σ) (d : Drain σ InProcessQueue Uuid)
    (r : ReceivedItem Uuid) (hd : CallsPopped d) :
    CallsPopped (drainStep h InProcessQueue.inProcess d r) := by
  simp only [drainStep]
  split
  · exact hd
  · rcases h.jobExists d.world r.item with ⟨(e | b), w⟩
    · exact hd
    · have hw : CallsPopped { d with world := w } := hd
      cases b with
      | false => exact hw.ack r.receipt
      | true =>
        simp only
        cases (h.otherThreads w d.limiter).tryAcquire r.item.awsAccountId with
        | none => exact hw.nack h _ _
        | some limiter =>
          exact callsPopped_tryItem h (d := { d with world := w, limiter := limiter }) hd r

/-- A quiet drain of the in-memory queue leaves none of its items in flight. -/
theorem drainOnce_inFlight (h : Handlers σ) (world : σ) (queue : InProcessQueue)
    (limiter : PerAccountLimiter) (maxItems : Nat) (clock : List Micros)
    (hq : Along (drainStep h InProcessQueue.inProcess) (Quiet h)
      (.start world (InProcessQueue.inProcess.receive queue maxItems clock).1 limiter)
      (InProcessQueue.inProcess.receive queue maxItems clock).2.items) :
    ∀ r ∈ (InProcessQueue.inProcess.receive queue maxItems clock).2.items,
      r.receipt ∉ (drainOnce h InProcessQueue.inProcess world queue limiter maxItems
        clock).queue.state.inFlight.keys := by
  intro r hr
  have hpopped : CallsPopped
      (drainOnce h InProcessQueue.inProcess world queue limiter maxItems clock) :=
    exec_inv (callsPopped_drainStep h) (by intro c hc; cases hc) _
  have honce : SettledOnce
      (drainOnce h InProcessQueue.inProcess world queue limiter maxItems clock).calls r.receipt :=
    (exec_settles_iff h _ _ _ (InProcessQueue.inProcess.receive queue maxItems clock).2.nodup rfl
      (by intro c hc; cases hc)).2 hq r hr
  obtain ⟨c, hc, he⟩ := List.countP_pos_iff.1 (by rw [honce]; exact Nat.one_pos)
  rw [← of_decide_eq_true he]
  exact hpopped c hc

end InProcess

/-! ## A lookup that raises -/

def webItem (region : String) : WorkItem where
  jobId := 7
  awsAccountId := "123456789012"
  region := region
  roleArn := none
  externalId := none
  name := none
  resourceTypes := none
  force := false
  dryRun := false

/-- The database is down for the lookup of the first item. -/
def lookupDown : Handlers Nat where
  jobExists n _ := (if n = 0 then .error ⟨"OperationalError", "server closed the connection"⟩
    else .ok true, n + 1)
  processItem n _ := (.ok [], n)
  maybeRunEvaluation n _ := (.ok (), n)
  otherThreads _ l := l
  monotonic _ := 0

def twoItems : InProcessQueue :=
  ((InProcessQueue.empty 10).send [webItem "eu-west-1", webItem "eu-west-3"]).getD (.empty 10)

/-- The raise leaves the loop: neither item is settled and both stay in flight. -/
theorem lookup_raise_strands :
    (¬ ∀ r ∈ (InProcessQueue.inProcess.receive twoItems 10 [0]).2.items,
      SettledOnce (drainOnce lookupDown InProcessQueue.inProcess 0 twoItems .fresh 10 [0]).calls
        r.receipt) ∧
    (drainOnce lookupDown InProcessQueue.inProcess 0 twoItems .fresh 10
      [0]).queue.state.inFlight.keys = [0, 1] := by
  refine ⟨?_, by decide +kernel⟩
  decide +kernel

end Worker

end Constat
