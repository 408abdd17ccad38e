import Constat.Lib.Threads
import Constat.Worker

/-!
# DrainThreads

The threads of a worker process, each in its own `drain_once`, sharing one `PerAccountLimiter`. A
thread takes one atomic step at a time: a call that returns or raises, or one operation of the
limiter, which holds its lock meanwhile. The gauge of the items in flight cannot raise.

An item's slot is taken by `try_acquire` and given back in the `finally` block, so a thread holds
one exactly from `gaugeUp` to `release`, however it gets from the one to the other.

* `Outcome`   — how a call ends: it returns, it raises an `Exception`, or what `except Exception`
                does not catch.
* `advance`   — one step of one thread; `advance_cases` says what it can do to the limiter.
* `Capped`    — the limiter counts the items in process, within the cap, and every acquire is
                matched by one release.
* `drainStep_advance` — a thread alone does what `drainStep` does.
-/

namespace Constat

namespace Worker

/-! ## One thread -/

/-- The calls of the loop body, in the order of the source. -/
inductive Point where
  | lookup
  | dropAck
  | dropRecord
  | acquire
  | deferNack
  | deferRecord
  | gaugeUp
  | process
  | ack
  | evaluate
  | retryNack
  | record
  | failNack
  | failRecord
  | gaugeDown
  | release
deriving DecidableEq

/-- `leaving`: an exception is on its way out of the loop. -/
inductive Thread where
  | idle
  | busy (point : Point) (item : WorkItem) (rest : List WorkItem) (leaving : Bool)
deriving DecidableEq

inductive Outcome where
  | returned (result : Bool)
  | exception
  | baseException
deriving DecidableEq

/-- What happens to a thread: outside the loop it receives a batch, inside the next call ends. -/
inductive ThreadEvent where
  | receive (items : List WorkItem)
  | call (outcome : Outcome)
deriving DecidableEq

abbrev ThreadMove := Threads.Move PerAccountLimiter Thread String

/-- The top of the loop. -/
def Thread.next : List WorkItem → Thread
  | [] => .idle
  | item :: rest => .busy .lookup item rest false

/-- A call outside the `try`: what it raises leaves `drain_once`. -/
def unguarded (o : Outcome) (t : Thread) : Thread :=
  match o with
  | .returned _ => t
  | .exception | .baseException => .idle

/-- A call inside the `try`: an `Exception` goes to the `except` branch, anything else to the
`finally` block. -/
def guarded (o : Outcome) (item : WorkItem) (rest : List WorkItem) (t : Bool → Thread) : Thread :=
  match o with
  | .returned result => t result
  | .exception => .busy .failNack item rest false
  | .baseException => .busy .gaugeDown item rest true

/-- A call in the `except` branch: whatever it raises goes through the `finally` block. -/
def handling (o : Outcome) (item : WorkItem) (rest : List WorkItem) (t : Thread) : Thread :=
  match o with
  | .returned _ => t
  | .exception | .baseException => .busy .gaugeDown item rest true

def advanceItem (o : Outcome) (l : PerAccountLimiter) (item : WorkItem) (rest : List WorkItem)
    (leaving : Bool) : Point → ThreadMove
  | .lookup => ⟨l, unguarded o (.busy (if o = .returned true then .acquire else .dropAck) item rest
      false), none⟩
  | .dropAck => ⟨l, unguarded o (.busy .dropRecord item rest false), none⟩
  | .dropRecord => ⟨l, unguarded o (.next rest), none⟩
  | .acquire =>
    match l.tryAcquire item.awsAccountId with
    | none => ⟨l, .busy .deferNack item rest false, none⟩
    | some l => ⟨l, .busy .gaugeUp item rest false, some (item.awsAccountId, true)⟩
  | .deferNack => ⟨l, unguarded o (.busy .deferRecord item rest false), none⟩
  | .deferRecord => ⟨l, unguarded o (.next rest), none⟩
  | .gaugeUp => ⟨l, .busy .process item rest false, none⟩
  -- the collection has errors, or it has none and the item is acked
  | .process => ⟨l, guarded o item rest fun success =>
      .busy (if success then .ack else .retryNack) item rest false, none⟩
  | .ack => ⟨l, guarded o item rest fun _ => .busy .evaluate item rest false, none⟩
  | .evaluate => ⟨l, guarded o item rest fun _ => .busy .record item rest false, none⟩
  | .retryNack => ⟨l, guarded o item rest fun _ => .busy .record item rest false, none⟩
  | .record => ⟨l, guarded o item rest fun _ => .busy .gaugeDown item rest false, none⟩
  | .failNack => ⟨l, handling o item rest (.busy .failRecord item rest false), none⟩
  | .failRecord => ⟨l, handling o item rest (.busy .gaugeDown item rest false), none⟩
  | .gaugeDown => ⟨l, .busy .release item rest leaving, none⟩
  | .release => ⟨l.release item.awsAccountId, if leaving then .idle else unguarded o (.next rest),
      some (item.awsAccountId, false)⟩

def advance (e : ThreadEvent) (l : PerAccountLimiter) : Thread → ThreadMove
  | .idle =>
    match e with
    | .receive items => ⟨l, .next items, none⟩
    | .call _ => ⟨l, .idle, none⟩
  | .busy point item rest leaving =>
    match e with
    | .receive _ => ⟨l, .busy point item rest leaving, none⟩
    | .call o => advanceItem o l item rest leaving point

/-! ## What a thread holds -/

/-- The slot has been taken and not yet given back. -/
def Point.inside : Point → Bool
  | .gaugeUp | .process | .ack | .evaluate | .retryNack | .record | .failNack | .failRecord
  | .gaugeDown | .release => true
  | _ => false

/-- The account of the item that the thread processes. -/
def Thread.held : Thread → Option String
  | .idle => none
  | .busy point item _ _ => if point.inside then some item.awsAccountId else none

@[simp] theorem held_next (items : List WorkItem) : (Thread.next items).held = none := by
  cases items <;> rfl

@[simp] theorem held_unguarded (o : Outcome) {t : Thread} (h : t.held = none) :
    (unguarded o t).held = none := by
  cases o with
  | returned result => exact h
  | exception => rfl
  | baseException => rfl

theorem held_guarded (o : Outcome) (item : WorkItem) (rest : List WorkItem) {t : Bool → Thread}
    (h : ∀ b, (t b).held = some item.awsAccountId) :
    (guarded o item rest t).held = some item.awsAccountId := by
  cases o with
  | returned result => exact h result
  | exception => rfl
  | baseException => rfl

theorem held_handling (o : Outcome) (item : WorkItem) (rest : List WorkItem) {t : Thread}
    (h : t.held = some item.awsAccountId) :
    (handling o item rest t).held = some item.awsAccountId := by
  cases o with
  | returned result => exact h
  | exception => rfl
  | baseException => rfl

/-- What one step can do to the limiter and to what the thread holds. -/
inductive Effect (l : PerAccountLimiter) (t : Thread) (m : ThreadMove) : Prop where
  | none (hcall : m.call = none) (hlimiter : m.shared = l) (hheld : m.thread.held = t.held)
  | acquired (account : String) (hcall : m.call = some (account, true))
      (hlimiter : l.tryAcquire account = some m.shared) (hfree : t.held = Option.none)
      (hheld : m.thread.held = some account)
  | released (account : String) (hcall : m.call = some (account, false))
      (hlimiter : m.shared = l.release account) (hheld : t.held = some account)
      (hfree : m.thread.held = Option.none)

theorem advanceItem_cases (o : Outcome) (l : PerAccountLimiter) (item : WorkItem)
    (rest : List WorkItem) (leaving : Bool) (point : Point) :
    Effect l (.busy point item rest leaving) (advanceItem o l item rest leaving point) := by
  cases point with
  | lookup =>
    refine .none rfl rfl (held_unguarded o ?_)
    cases o with
    | returned result => cases result <;> rfl
    | exception => rfl
    | baseException => rfl
  | dropAck => exact .none rfl rfl (held_unguarded o rfl)
  | dropRecord => exact .none rfl rfl (held_unguarded o (held_next rest))
  | acquire =>
    simp only [advanceItem]
    cases h : l.tryAcquire item.awsAccountId with
    | none => exact .none rfl rfl rfl
    | some l' => exact .acquired item.awsAccountId rfl h rfl rfl
  | deferNack => exact .none rfl rfl (held_unguarded o rfl)
  | deferRecord => exact .none rfl rfl (held_unguarded o (held_next rest))
  | gaugeUp => exact .none rfl rfl rfl
  | process =>
    refine .none rfl rfl (held_guarded o item rest fun b => ?_)
    cases b <;> rfl
  | ack => exact .none rfl rfl (held_guarded o item rest fun _ => rfl)
  | evaluate => exact .none rfl rfl (held_guarded o item rest fun _ => rfl)
  | retryNack => exact .none rfl rfl (held_guarded o item rest fun _ => rfl)
  | record => exact .none rfl rfl (held_guarded o item rest fun _ => rfl)
  | failNack => exact .none rfl rfl (held_handling o item rest rfl)
  | failRecord => exact .none rfl rfl (held_handling o item rest rfl)
  | gaugeDown => exact .none rfl rfl rfl
  | release =>
    refine .released item.awsAccountId rfl rfl rfl ?_
    simp only [advanceItem]
    cases leaving with
    | true => rfl
    | false => exact held_unguarded o (held_next rest)

theorem advance_cases (e : ThreadEvent) (l : PerAccountLimiter) (t : Thread) :
    Effect l t (advance e l t) := by
  cases t with
  | idle =>
    cases e with
    | receive items => exact .none rfl rfl (held_next items)
    | call o => exact .none rfl rfl rfl
  | busy point item rest leaving =>
    cases e with
    | receive items => exact .none rfl rfl rfl
    | call o => exact advanceItem_cases o l item rest leaving point

/-! ## The limiter -/

theorem tryAcquire_some {l l' : PerAccountLimiter} {account : String}
    (h : l.tryAcquire account = some l') :
    l.inFlight account < l.max ∧ l'.max = l.max ∧ ∀ a, l'.inFlight a =
      if a = account then l.inFlight account + 1 else l.inFlight a := by
  rw [PerAccountLimiter.tryAcquire] at h
  split at h
  · cases h
  · rename_i hroom
    cases h
    refine ⟨Nat.lt_of_not_ge hroom, rfl, fun a => ?_⟩
    rw [PerAccountLimiter.inFlight, Dict.get?_set]
    split <;> rfl

theorem inFlight_release (l : PerAccountLimiter) (account a : String) :
    (l.release account).inFlight a =
      if a = account then l.inFlight account - 1 else l.inFlight a := by
  by_cases hone : l.inFlight account ≤ 1
  · rw [PerAccountLimiter.release, if_pos hone, PerAccountLimiter.inFlight, Dict.get?_pop]
    split
    · rw [Option.getD_none]
      omega
    · rfl
  · rw [PerAccountLimiter.release, if_neg hone, PerAccountLimiter.inFlight, Dict.get?_set]
    split <;> rfl

theorem max_release (l : PerAccountLimiter) (account : String) :
    (l.release account).max = l.max := by
  rw [PerAccountLimiter.release]
  split <;> rfl

/-- No account is on record with a count of zero. -/
def Positive (l : PerAccountLimiter) : Prop := ∀ a, l.counts.get? a ≠ some 0

theorem positive_tryAcquire {l l' : PerAccountLimiter} {account : String} (hl : Positive l)
    (h : l.tryAcquire account = some l') : Positive l' := by
  rw [PerAccountLimiter.tryAcquire] at h
  split at h
  · cases h
  · cases h
    intro a
    rw [Dict.get?_set]
    split
    · simp
    · exact hl a

theorem positive_release {l : PerAccountLimiter} (hl : Positive l) (account : String) :
    Positive (l.release account) := by
  intro a
  rw [PerAccountLimiter.release]
  split
  · rw [Dict.get?_pop]
    split
    · intro h
      cases h
    · exact hl a
  · rw [Dict.get?_set]
    split
    · intro h
      have hzero := Option.some.inj h
      omega
    · exact hl a

/-! ## All threads -/

abbrev Workers := Threads.System PerAccountLimiter Thread String

def workersStep (s : Workers) (e : Nat × ThreadEvent) : Workers := Threads.step advance s e

/-- `n` threads before their first `drain_once`. -/
def startWorkers (cap : Nat) (h : 1 ≤ cap) (n : Nat) : Workers where
  shared := ⟨cap, h, .empty⟩
  threads := List.replicate n .idle
  calls := []

/-- The items of an account that are being processed. -/
def processing (s : Workers) (account : String) : Nat := Threads.holders Thread.held s account

/-- The limiter counts the items in process, within the cap and to zero; each thread gives back
what it takes before it takes again, and holds what it has not given back. -/
structure Capped (cap : Nat) (s : Workers) : Prop where
  counted : ∀ account, s.shared.inFlight account = processing s account
  within : ∀ account, processing s account ≤ cap
  matched : Presence.Tells s.calls (Threads.Holds Thread.held s)
  cleared : ∀ account, processing s account = 0 → s.shared.counts.get? account = none

theorem accounts_advance (e : ThreadEvent) (l : PerAccountLimiter) (t : Thread) :
    Threads.Accounts Thread.held t (advance e l t).call (advance e l t).thread := by
  rcases advance_cases e l t with ⟨hcall, _, hheld⟩ | ⟨account, hcall, _, hfree, hheld⟩ |
    ⟨account, hcall, _, hheld, hfree⟩
  · rw [hcall]; exact hheld
  · rw [hcall]; exact ⟨hfree, hheld⟩
  · rw [hcall]; exact ⟨hheld, hfree⟩

theorem counts_advance (e : ThreadEvent) (l : PerAccountLimiter) (t : Thread) :
    Threads.Counts PerAccountLimiter.inFlight l (advance e l t).call (advance e l t).shared := by
  rcases advance_cases e l t with ⟨hcall, hlimiter, _⟩ | ⟨account, hcall, hlimiter, _, _⟩ |
    ⟨account, hcall, hlimiter, _, _⟩
  · rw [hcall, hlimiter]; exact fun _ => rfl
  · rw [hcall]; exact (tryAcquire_some hlimiter).2.2
  · rw [hcall, hlimiter]; exact inFlight_release l account

/-- What the counts rest on. -/
structure CapInv (cap : Nat) (s : Workers) : Prop where
  max : s.shared.max = cap
  counted : ∀ account, s.shared.inFlight account = processing s account
  within : ∀ account, s.shared.inFlight account ≤ cap
  matched : Presence.Tells s.calls (Threads.Holds Thread.held s)
  positive : Positive s.shared

theorem limiter_advance {l : PerAccountLimiter} (e : ThreadEvent) (t : Thread)
    (hwithin : ∀ a, l.inFlight a ≤ l.max) (hpositive : Positive l) :
    (advance e l t).shared.max = l.max ∧ (∀ a, (advance e l t).shared.inFlight a ≤ l.max) ∧
      Positive (advance e l t).shared := by
  rcases advance_cases e l t with ⟨_, hlimiter, _⟩ | ⟨account, _, hlimiter, _, _⟩ |
    ⟨account, _, hlimiter, _, _⟩
  · rw [hlimiter]
    exact ⟨rfl, hwithin, hpositive⟩
  · obtain ⟨hroom, hmax, hcount⟩ := tryAcquire_some hlimiter
    refine ⟨hmax, fun a => ?_, positive_tryAcquire hpositive hlimiter⟩
    rw [hcount]
    split
    · exact hroom
    · exact hwithin a
  · rw [hlimiter]
    refine ⟨max_release l account, fun a => ?_, positive_release hpositive account⟩
    have hheld := hwithin account
    rw [inFlight_release]
    split
    · omega
    · exact hwithin a

theorem capInv_step {cap : Nat} (s : Workers) (e : Nat × ThreadEvent) (h : CapInv cap s) :
    CapInv cap (workersStep s e) := by
  have hcounted := Threads.counted_step accounts_advance counts_advance s e h.counted
  have hmatched := Threads.tells_step accounts_advance s e h.matched
  have hlimiter : (workersStep s e).shared.max = cap ∧
      (∀ a, (workersStep s e).shared.inFlight a ≤ cap) ∧ Positive (workersStep s e).shared := by
    obtain ⟨i, e⟩ := e
    cases ht : s.threads[i]? with
    | none =>
      rw [workersStep, Threads.step_of_none ht]
      exact ⟨h.max, h.within, h.positive⟩
    | some t =>
      rw [workersStep, Threads.step_of_some ht, ← h.max]
      exact limiter_advance e t (fun a => h.max ▸ h.within a) h.positive
  exact ⟨hlimiter.1, hcounted, hlimiter.2.1, hmatched, hlimiter.2.2⟩

theorem capInv_start (cap : Nat) (h : 1 ≤ cap) (n : Nat) : CapInv cap (startWorkers cap h n) := by
  have hidle : ∀ t ∈ (startWorkers cap h n).threads, t.held = none := by
    intro t ht
    rw [(List.mem_replicate.1 ht).2]
    rfl
  refine ⟨rfl, fun account => ?_, fun account => Nat.zero_le cap, ?_, fun account => nofun⟩
  · refine (List.countP_eq_zero.2 fun t ht => ?_).symm
    rw [hidle t ht]
    simp
  · refine Presence.Tells.nil fun k hk => ?_
    rw [Threads.Holds, Option.bind_eq_some_iff] at hk
    obtain ⟨t, ht, hheld⟩ := hk
    rw [hidle t (List.mem_of_getElem? ht)] at hheld
    cases hheld

theorem CapInv.capped {cap : Nat} {s : Workers} (h : CapInv cap s) : Capped cap s := by
  refine ⟨h.counted, fun account => h.counted account ▸ h.within account, h.matched,
    fun account hzero => ?_⟩
  have hcount := (h.counted account).trans hzero
  rw [PerAccountLimiter.inFlight] at hcount
  cases hget : s.shared.counts.get? account with
  | none => rfl
  | some n =>
    rw [hget, Option.getD_some] at hcount
    exact absurd (hcount ▸ hget) (h.positive account)

/-- Whatever the threads receive, in whatever order they run and however their calls end, the cap
holds, and every slot that is taken is given back once. -/
theorem drainThreads_capped (cap : Nat) (h : 1 ≤ cap) (n : Nat) (es : List (Nat × ThreadEvent)) :
    Trace.Always workersStep (Capped cap) (startWorkers cap h n) es :=
  (Trace.Always.of_inv capInv_step (capInv_start cap h n) es).mono fun _ hs => hs.capped

/-! ### Two threads, one account -/

def itemIn (region : String) : WorkItem where
  jobId := 0
  awsAccountId := "123456789012"
  region := region
  roleArn := none
  externalId := none
  name := none
  resourceTypes := none
  force := false
  dryRun := false

/-- The second thread comes to the account while the first one processes an item of it, and defers
its own; the collection of the first is interrupted. -/
def interrupted : List (Nat × ThreadEvent) :=
  let returned (i : Nat) (n : Nat) := List.replicate n (i, ThreadEvent.call (.returned true))
  [(0, .receive [itemIn "eu-west-1"]), (1, .receive [itemIn "us-east-1"])] ++ returned 0 3 ++
    returned 1 4 ++ [(0, .call .baseException)] ++ returned 0 2

theorem interrupted_capped :
    ((Trace.exec workersStep (startWorkers 1 (Nat.le_refl 1) 2) interrupted).calls =
      [((0, "123456789012"), true), ((0, "123456789012"), false)] ∧
    (Trace.exec workersStep (startWorkers 1 (Nat.le_refl 1) 2) interrupted).threads =
      [.idle, .idle]) ∧
    Trace.Always workersStep (Capped 1) (startWorkers 1 (Nat.le_refl 1) 2) interrupted :=
  ⟨by decide +kernel, drainThreads_capped 1 (Nat.le_refl 1) 2 interrupted⟩

/-! ## A thread alone -/

/-- The steps of one thread when no other one runs. -/
def alone (p : PerAccountLimiter × Thread) (os : List Outcome) : PerAccountLimiter × Thread :=
  os.foldl (fun p o =>
    let m := advance (.call o) p.1 p.2
    (m.shared, m.thread)) p

section

variable {σ Q ρ : Type}

/-- What is left of a batch after a step. -/
def Drain.thread (d : Drain σ Q ρ) (rest : List WorkItem) : Thread :=
  match d.raised with
  | some _ => .idle
  | none => .next rest

theorem alone_append (p : PerAccountLimiter × Thread) (os os' : List Outcome) :
    alone p (os ++ os') = alone (alone p os) os' := List.foldl_append

/-- From the `finally` block on: the slot is given back. -/
theorem alone_finally (l : PerAccountLimiter) (item : WorkItem) (rest : List WorkItem) :
    alone (l, .busy .gaugeDown item rest false) [.returned true, .returned true] =
      (l.release item.awsAccountId, .next rest) := rfl

/-- The `try` block, whichever way it ends, leads to the `finally` block. -/
theorem alone_tryItem (h : Handlers σ) (wq : WorkQueue Q ρ) (d : Drain σ Q ρ) (r : ReceivedItem ρ)
    (rest : List WorkItem) : (tryItem h wq d r).limiter = d.limiter ∧
      (tryItem h wq d r).raised = d.raised ∧
      ∃ os, alone (d.limiter, .busy .process r.item rest false) os =
        (d.limiter, .busy .gaugeDown r.item rest false) := by
  simp only [tryItem]
  rcases h.processItem d.world r.item with ⟨(e | errors), w⟩
  · exact ⟨rfl, rfl, [.exception, .returned true, .returned true], rfl⟩
  · cases errors with
    | cons x xs => exact ⟨rfl, rfl, [.returned false, .returned true, .returned true], rfl⟩
    | nil =>
      simp only [Drain.ack]
      rcases h.maybeRunEvaluation w r.item with ⟨(e | u), w⟩
      · exact ⟨rfl, rfl, [.returned true, .returned true, .exception, .returned true,
          .returned true], rfl⟩
      · exact ⟨rfl, rfl, [.returned true, .returned true, .returned true, .returned true], rfl⟩

/-- A thread alone does to the limiter what the step of the loop does, and goes on where it does. -/
theorem drainStep_advance (h : Handlers σ) (wq : WorkQueue Q ρ)
    (halone : ∀ w l, h.otherThreads w l = l) {d : Drain σ Q ρ} (hd : d.raised = none)
    (r : ReceivedItem ρ) (rest : List WorkItem) :
    ∃ os, alone (d.limiter, .next (r.item :: rest)) os =
      ((drainStep h wq d r).limiter, (drainStep h wq d r).thread rest) := by
  simp only [drainStep, hd, halone, Drain.thread]
  rcases h.jobExists d.world r.item with ⟨(e | b), w⟩
  · exact ⟨[.exception], rfl⟩
  · cases b with
    | false => exact ⟨[.returned false, .returned true, .returned true], rfl⟩
    | true =>
      simp only
      cases hacquire : d.limiter.tryAcquire r.item.awsAccountId with
      | none =>
        refine ⟨[.returned true, .returned true, .returned true, .returned true], ?_⟩
        simp [alone, advance, advanceItem, Thread.next, unguarded, hacquire, Drain.nack,
          Drain.outcome]
      | some limiter =>
        have hstart : alone (d.limiter, .next (r.item :: rest))
            [.returned true, .returned true, .returned true] =
            (limiter, .busy .process r.item rest false) := by
          simp [alone, advance, advanceItem, Thread.next, unguarded, hacquire]
        obtain ⟨hlimiter, hraised, os, htry⟩ := alone_tryItem h wq
          { d with world := w, limiter := limiter, raised := none } r rest
        refine ⟨[.returned true, .returned true, .returned true] ++
          (os ++ [.returned true, .returned true]), ?_⟩
        rw [alone_append, hstart, alone_append, htry, alone_finally]
        simp only [hlimiter, hraised]

/-- A batch that a thread drains alone. -/
theorem drainOnce_advance (h : Handlers σ) (wq : WorkQueue Q ρ)
    (halone : ∀ w l, h.otherThreads w l = l) (rs : List (ReceivedItem ρ)) (d : Drain σ Q ρ) :
    ∃ os, alone (d.limiter, d.thread (rs.map (·.item))) os =
      ((Trace.exec (drainStep h wq) d rs).limiter, .idle) := by
  induction rs generalizing d with
  | nil =>
    refine ⟨[], ?_⟩
    rw [Trace.exec_nil, Drain.thread]
    split <;> rfl
  | cons r rs ih =>
    obtain ⟨os, hos⟩ := ih (drainStep h wq d r)
    cases hd : d.raised with
    | some e =>
      have hsame : drainStep h wq d r = d := by rw [drainStep, hd]
      rw [hsame] at hos
      refine ⟨os, ?_⟩
      rw [Trace.exec_cons, hsame, ← hos, Drain.thread, Drain.thread, hd]
    | none =>
      obtain ⟨os', hos'⟩ := drainStep_advance h wq halone hd r (rs.map (·.item))
      refine ⟨os' ++ os, ?_⟩
      have hthread : d.thread ((r :: rs).map (·.item)) = .next (r.item :: rs.map (·.item)) := by
        rw [Drain.thread, hd]
        rfl
      rw [alone_append, hthread, hos', hos, Trace.exec_cons]

end

end Worker

end Constat
