import Constat.QueueRun

/-!
# StaleReceipts

Late settles of the in-memory queue of `collect_queue.py`: the holder of a delivery acks or nacks it
after it was nacked and the item delivered again. `InProcessQueue` draws a receipt for an item, not
for a delivery, so every delivery of the item goes by the same receipt.

* `Stale`      — a settle of a delivery that was nacked and followed by another one.
* `Out`        — the last thing that happened to the receipt is a delivery: somebody works on it.
* `ignored_iff` — along a run, the stale settles leave the queue alone exactly when none of them
  comes while the item is out again.
-/

namespace Constat

namespace StaleReceipts

open Trace QueueState

/-- What happened to a receipt; a delivery reports how many there were of it. -/
inductive Mark where
  | delivered (receipt : Uuid) (attempts : Nat)
  | acked (receipt : Uuid)
  | nacked (receipt : Uuid)
deriving DecidableEq

def Mark.receipt : Mark → Uuid
  | .delivered r _ => r
  | .acked r => r
  | .nacked r => r

def Mark.isDelivery : Mark → Bool
  | .delivered _ _ => true
  | _ => false

/-- A caller settles the delivery it holds; the queue is told the receipt and no more. A `receive`
that waits while others call is several of these, one for each look at the queue. -/
inductive Op where
  | send (items : List WorkItem)
  | receive (maxItems : Nat) (clock : List Micros)
  | ack (receipt : Uuid) (attempts : Nat)
  | nack (receipt : Uuid) (attempts : Nat) (delay : Micros) (now : Micros)

/-- The delivery an operation settles. -/
def Op.settles : Op → Option (Uuid × Nat)
  | .ack r n => some (r, n)
  | .nack r n _ _ => some (r, n)
  | _ => none

structure Run where
  queue : QueueState
  log : List Mark

def start (maxsize : Nat) : Run := ⟨(InProcessQueue.empty maxsize).state, []⟩

def deliveries (out : List (ReceivedItem Uuid)) : List Mark :=
  out.map fun e => .delivered e.receipt e.attempts

def step (s : Run) : Op → Run
  | .send items =>
    match s.queue.send items with
    | none => s
    | some queue => ⟨queue, s.log⟩
  | .receive maxItems clock =>
    let (queue, out) := s.queue.receive maxItems clock
    ⟨queue, s.log ++ deliveries out⟩
  | .ack receipt _ => ⟨s.queue.ack receipt, s.log ++ [.acked receipt]⟩
  | .nack receipt _ delay now => ⟨s.queue.nackFor receipt delay now, s.log ++ [.nacked receipt]⟩

/-- The delivery was nacked and the item delivered again. -/
def Stale (log : List Mark) (receipt : Uuid) (attempts : Nat) : Prop :=
  ∃ later, List.Sublist [.delivered receipt attempts, .nacked receipt, .delivered receipt later] log

/-- The last thing that happened to the receipt is a delivery. -/
def Out (log : List Mark) (receipt : Uuid) : Prop :=
  ((log.filter fun m => m.receipt = receipt).getLast?.any Mark.isDelivery) = true

/-- A stale settle changes nothing. -/
def Ignored (s : Run) (op : Op) : Prop :=
  ∀ r n, op.settles = some (r, n) → Stale s.log r n → (step s op).queue = s.queue

/-- A stale settle comes after the later delivery was itself acked or nacked. -/
def Answered (s : Run) (op : Op) : Prop :=
  ∀ r n, op.settles = some (r, n) → Stale s.log r n → ¬ Out s.log r

/-! ## What is in flight -/

theorem mem_keys_takeReady (q : QueueState) (maxItems : Nat) (hq : q.Wf) {r : Uuid} :
    r ∈ (q.takeReady maxItems).1.inFlight.keys ↔
      r ∈ q.inFlight.keys ∨ r ∈ (q.takeReady maxItems).2.map (·.receipt) := by
  rw [keys_takeReady hq, List.mem_append]

theorem mem_keys_receive (maxItems : Nat) (clock : List Micros) {r : Uuid} :
    ∀ {q : QueueState}, q.Wf → (r ∈ (q.receive maxItems clock).1.inFlight.keys ↔
      r ∈ q.inFlight.keys ∨ r ∈ (q.receive maxItems clock).2.map (·.receipt)) := by
  induction clock with
  | nil => intro q _; simp [QueueState.receive]
  | cons now clock ih =>
    intro q hq
    have hp := wf_promoteDue hq now
    have hpass := mem_keys_takeReady (q.promoteDue now) maxItems hp (r := r)
    simp only [QueueState.receive]
    split
    · rename_i hnone
      rw [List.isEmpty_iff.1 hnone] at hpass
      rw [ih (wf_takeReady hp maxItems), hpass]
      simp [promoteDue]
    · exact hpass

theorem mem_keys_ack (q : QueueState) (receipt : Uuid) {r : Uuid} :
    r ∈ (q.ack receipt).inFlight.keys ↔ r ∈ q.inFlight.keys ∧ r ≠ receipt := by
  simp only [QueueState.ack, Dict.keys, Dict.pop, List.mem_map, List.mem_filter, decide_eq_true_eq]
  constructor
  · rintro ⟨p, ⟨hp, hne⟩, rfl⟩
    exact ⟨⟨p, hp, rfl⟩, hne⟩
  · rintro ⟨⟨p, hp, rfl⟩, hne⟩
    exact ⟨p, ⟨hp, hne⟩, rfl⟩

theorem mem_keys_nackFor (q : QueueState) (receipt : Uuid) (delay now : Micros) {r : Uuid} :
    r ∈ (q.nackFor receipt delay now).inFlight.keys ↔ r ∈ q.inFlight.keys ∧ r ≠ receipt := by
  unfold nackFor
  split
  · rename_i hnone
    have habsent := Dict.get?_eq_none.1 hnone
    refine (and_iff_left_of_imp fun hr => ?_).symm
    rintro rfl
    exact habsent hr
  · exact mem_keys_ack q receipt

/-- An ack changes the queue exactly when the receipt is in flight. -/
theorem ack_eq_self_iff {q : QueueState} {receipt : Uuid} :
    q.ack receipt = q ↔ receipt ∉ q.inFlight.keys := by
  constructor
  · intro h hin
    have hmem := (mem_keys_ack q receipt).1 (h.symm ▸ hin)
    exact hmem.2 rfl
  · intro hout
    have hpop : q.inFlight.pop receipt = q.inFlight := by
      refine Dict.ext (List.filter_eq_self.2 fun p hp => decide_eq_true ?_)
      rintro rfl
      exact hout (List.mem_map_of_mem hp)
    rw [QueueState.ack, hpop]

/-- So does a nack. -/
theorem nackFor_eq_self_iff {q : QueueState} {receipt : Uuid} {delay now : Micros} :
    q.nackFor receipt delay now = q ↔ receipt ∉ q.inFlight.keys := by
  constructor
  · intro h hin
    have hmem := (mem_keys_nackFor q receipt delay now).1 (h.symm ▸ hin)
    exact hmem.2 rfl
  · intro hout
    rw [nackFor, Dict.get?_eq_none.2 hout]

/-! ## What the log says of it -/

theorem out_append {log new : List Mark} {r : Uuid} (h : ∃ m ∈ new, m.receipt = r)
    (hall : ∀ m ∈ new, m.receipt = r → m.isDelivery = true) : Out (log ++ new) r := by
  obtain ⟨m, hm, hr⟩ := h
  have hmem : m ∈ new.filter fun m => m.receipt = r := List.mem_filter.2 ⟨hm, by simpa using hr⟩
  obtain ⟨last, hlast⟩ :=
    Option.isSome_iff_exists.1 (List.getLast?_isSome.2 (List.ne_nil_of_mem hmem))
  obtain ⟨hin, hreceipt⟩ := List.mem_filter.1 (List.mem_of_getLast? hlast)
  unfold Out
  rw [List.filter_append, List.getLast?_append, hlast]
  simpa using hall last hin (by simpa using hreceipt)

theorem out_append_other {log new : List Mark} {r : Uuid} (h : ∀ m ∈ new, m.receipt ≠ r) :
    Out (log ++ new) r ↔ Out log r := by
  have hnone : (new.filter fun m => m.receipt = r) = [] :=
    List.filter_eq_nil_iff.2 fun m hm => by simpa using h m hm
  unfold Out
  rw [List.filter_append, hnone, List.append_nil]

theorem not_out_settled {log : List Mark} {m : Mark} (hm : m.isDelivery = false) :
    ¬ Out (log ++ [m]) m.receipt := by
  unfold Out
  simp [List.filter_append, hm]

/-- After a settle mark, another receipt is out as it was, and this one is not. -/
theorem out_append_settle {log : List Mark} {m : Mark} (hm : m.isDelivery = false) {r : Uuid} :
    Out (log ++ [m]) r ↔ Out log r ∧ r ≠ m.receipt := by
  by_cases hr : r = m.receipt
  · subst hr
    simp [not_out_settled hm]
  · rw [out_append_other (by simpa using Ne.symm hr), and_iff_left hr]

/-! ## Runs -/

/-- What is in flight is what is out. -/
structure Inv (s : Run) : Prop where
  wf : s.queue.Wf
  inFlight : ∀ r, r ∈ s.queue.inFlight.keys ↔ Out s.log r

theorem inv_start (maxsize : Nat) : Inv (start maxsize) where
  wf := (InProcessQueue.empty maxsize).wf
  inFlight r := by
    constructor
    · intro h
      cases h
    · intro h
      simp [Out, start] at h

theorem inFlight_send {q q' : QueueState} {items : List WorkItem} (h : q.send items = some q') :
    q'.inFlight = q.inFlight := by
  have hall : ∀ (items : List WorkItem) (q : QueueState),
      (items.foldl QueueState.append q).inFlight = q.inFlight := by
    intro items
    induction items with
    | nil => intro q; rfl
    | cons item items ih => intro q; rw [List.foldl_cons, ih]; rfl
  unfold QueueState.send at h
  split_ifs at h
  · rw [Option.some.inj h]
  · rw [← Option.some.inj h, hall]

theorem Inv.step {s : Run} (h : Inv s) (op : Op) : Inv (step s op) := by
  cases op with
  | send items =>
    simp only [StaleReceipts.step]
    split
    · exact h
    · rename_i queue hsend
      exact ⟨wf_send h.wf hsend, fun r => by rw [inFlight_send hsend]; exact h.inFlight r⟩
  | receive maxItems clock =>
    refine ⟨(wf_receive h.wf maxItems clock).1, fun r => ?_⟩
    simp only [StaleReceipts.step]
    rw [mem_keys_receive maxItems clock h.wf, h.inFlight r]
    by_cases hr : r ∈ (s.queue.receive maxItems clock).2.map (·.receipt)
    · obtain ⟨e, he, rfl⟩ := List.mem_map.1 hr
      refine iff_of_true (.inr hr) (out_append ⟨_, List.mem_map_of_mem he, rfl⟩ fun m hm _ => ?_)
      obtain ⟨x, _, rfl⟩ := List.mem_map.1 hm
      rfl
    · rw [or_iff_left hr, out_append_other]
      intro m hm hreceipt
      obtain ⟨x, hx, rfl⟩ := List.mem_map.1 hm
      exact hr (hreceipt ▸ List.mem_map_of_mem hx)
  | ack receipt attempts =>
    refine ⟨wf_ack h.wf receipt, fun r => ?_⟩
    simp only [StaleReceipts.step]
    rw [mem_keys_ack, h.inFlight r, out_append_settle rfl]
    rfl
  | nack receipt attempts delay now =>
    refine ⟨QueueRun.wf_nackFor h.wf receipt delay now, fun r => ?_⟩
    simp only [StaleReceipts.step]
    rw [mem_keys_nackFor, h.inFlight r, out_append_settle rfl]
    rfl

/-- A settle leaves the queue alone exactly when nobody works on the item. -/
theorem settle_eq_self_iff {s : Run} (h : Inv s) {op : Op} {r : Uuid} {n : Nat}
    (hop : op.settles = some (r, n)) : (step s op).queue = s.queue ↔ ¬ Out s.log r := by
  rw [← h.inFlight r]
  cases op with
  | send items => cases hop
  | receive maxItems clock => cases hop
  | ack receipt attempts =>
    cases hop
    exact ack_eq_self_iff
  | nack receipt attempts delay now =>
    cases hop
    exact nackFor_eq_self_iff

theorem ignored_iff (maxsize : Nat) (ops : List Op) :
    Along step Ignored (start maxsize) ops ↔ Along step Answered (start maxsize) ops := by
  refine Along.congr (I := Inv) (fun s op hs => hs.step op) (fun s op hs => ?_) (inv_start maxsize)
  refine forall_congr' fun r => forall_congr' fun n => ?_
  exact imp_congr_right fun hop => imp_congr_right fun _ => settle_eq_self_iff hs hop

def eastItem : WorkItem :=
  ⟨7, "123456789012", "us-east-1", none, none, none, none, false, false⟩

/-- One worker nacks, another one takes the item up again, and then the first one acks. -/
def lateAck : List Op :=
  [.send [eastItem], .receive 1 [0], .nack 0 1 0 0, .receive 1 [5], .ack 0 1]

/-- The late ack takes the item away from the worker that holds it. -/
theorem late_ack_settles : ¬ Along step Ignored (start 10) lateAck ∧
    (exec step (start 10) (lateAck.take 4)).queue.entries = [⟨0, eastItem, 2⟩] ∧
    (exec step (start 10) lateAck).queue.entries = [] := by
  have hbefore : (exec step (start 10) (lateAck.take 4)).queue.entries = [⟨0, eastItem, 2⟩] := by
    decide +kernel
  have hafter : (exec step (start 10) lateAck).queue.entries = [] := by decide +kernel
  refine ⟨fun h => ?_, hbefore, hafter⟩
  have hlog : (exec step (start 10) (lateAck.take 4)).log =
      [.delivered 0 1, .nacked 0, .delivered 0 2] := by decide +kernel
  have hrun : Along step Ignored (start 10) (lateAck.take 4 ++ [.ack 0 1]) := h
  have hstep := hrun.at_step
  have hsame := hstep 0 1 rfl ⟨2, hlog ▸ .refl _⟩
  have hentries : (exec step (start 10) lateAck).queue.entries =
      (exec step (start 10) (lateAck.take 4)).queue.entries := congrArg entries hsame
  rw [hafter, hbefore] at hentries
  cases hentries

end StaleReceipts

end Constat
