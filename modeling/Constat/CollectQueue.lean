import Mathlib.Data.List.Sort
import Constat.Lib.Dict
import Constat.Orm

/-!
# CollectQueue

`collect_queue.py`: the work queue between the API and the collect workers. One `WorkItem` is one
account and one region.

* `WorkQueue` — the contract the worker drains: `receive`, `ack`, `nack`. A batch never hands
  out one receipt twice.
* `InProcessQueue` — the in-memory queue: items ready, items delayed until a time, and items in
  flight by receipt. Its fields carry that no receipt is in two places (`QueueState.Wf`), and
  each operation keeps it (`wf_send`, `wf_receive`, `wf_ack`, `wf_nack`).
* `inProcess` — the in-memory queue as a `WorkQueue`.
-/

namespace Constat

structure WorkItem where
  jobId : Uuid
  awsAccountId : String
  region : String
  roleArn : Option String
  externalId : Option String
  name : Option String
  resourceTypes : Option (List String)
  force : Bool
  dryRun : Bool
deriving DecidableEq

/-- A dequeued item, the receipt the ack or nack needs, and the number of deliveries so far. -/
structure ReceivedItem (ρ : Type) where
  receipt : ρ
  item : WorkItem
  attempts : Nat
deriving DecidableEq

/-- What one `receive` returns. -/
structure Batch (ρ : Type) where
  items : List (ReceivedItem ρ)
  nodup : (items.map ReceivedItem.receipt).Nodup

/-- The queue contract the worker drains. `receive` is given the clock readings at which the
waiting call looks at the queue, the last one at its deadline. -/
structure WorkQueue (Q ρ : Type) where
  receive : Q → Nat → List Micros → Q × Batch ρ
  ack : Q → ρ → Q
  nack : Q → ρ → Int → Micros → Q

/-! ## The in-memory queue -/

structure QueueState where
  maxsize : Nat
  nextReceipt : Uuid
  ready : List (ReceivedItem Uuid)
  delayed : List (Micros × ReceivedItem Uuid)
  inFlight : Dict Uuid (WorkItem × Nat)

namespace QueueState

def receipts (q : QueueState) : List Uuid :=
  q.ready.map (·.receipt) ++ q.delayed.map (·.2.receipt) ++ q.inFlight.keys

/-- No receipt is in two places, and the next one to draw is new. -/
structure Wf (q : QueueState) : Prop where
  nodup : q.receipts.Nodup
  lt_next : ∀ x ∈ q.receipts, x < q.nextReceipt

/-- Items the queue still owes a worker. -/
def pendingCount (q : QueueState) : Nat :=
  q.ready.length + q.delayed.length + q.inFlight.items.length

def append (q : QueueState) (item : WorkItem) : QueueState :=
  { q with
    nextReceipt := q.nextReceipt + 1
    ready := q.ready ++ [⟨q.nextReceipt, item, 0⟩] }

/-- `none` is `QueueFullError`. -/
def send (q : QueueState) (items : List WorkItem) : Option QueueState :=
  if items.isEmpty then some q
  else if q.pendingCount + items.length > q.maxsize then none
  else some (items.foldl append q)

def due (now : Micros) (e : Micros × ReceivedItem Uuid) : Bool := e.1 ≤ now

/-- Move delayed items whose not-before has passed back to ready. -/
def promoteDue (q : QueueState) (now : Micros) : QueueState :=
  { q with
    ready := q.ready ++ (q.delayed.takeWhile (due now)).map (·.2)
    delayed := q.delayed.dropWhile (due now) }

def deliver (r : ReceivedItem Uuid) : ReceivedItem Uuid := { r with attempts := r.attempts + 1 }

/-- Take up to `maxItems` ready items in flight. -/
def takeReady (q : QueueState) (maxItems : Nat) : QueueState × List (ReceivedItem Uuid) :=
  let out := (q.ready.take maxItems).map deliver
  ({ q with
      ready := q.ready.drop maxItems
      inFlight := out.foldl (fun d r => d.set r.receipt (r.item, r.attempts)) q.inFlight }, out)

/-- The wait loop of `receive`: one pass at each clock reading, until a pass finds items. -/
def receive (q : QueueState) (maxItems : Nat) :
    List Micros → QueueState × List (ReceivedItem Uuid)
  | [] => (q, [])
  | now :: clock =>
    let (q, out) := (q.promoteDue now).takeReady maxItems
    if out.isEmpty then q.receive maxItems clock else (q, out)

def ack (q : QueueState) (receipt : Uuid) : QueueState :=
  { q with inFlight := q.inFlight.pop receipt }

/-- An unknown receipt is logged and changes nothing. -/
def nack (q : QueueState) (receipt : Uuid) (delaySeconds : Int) (now : Micros) : QueueState :=
  match q.inFlight.get? receipt with
  | none => q
  | some (item, attempts) =>
    let entry : Micros × ReceivedItem Uuid :=
      (now + max delaySeconds 0 * 1000000, ⟨receipt, item, attempts⟩)
    { q with
      inFlight := q.inFlight.pop receipt
      delayed := (q.delayed ++ [entry]).insertionSort (fun a b => a.1 ≤ b.1) }

/-! ## Receipts are in one place -/

theorem wf_of_perm {q q' : QueueState} (hq : q.Wf) (hn : q'.nextReceipt = q.nextReceipt)
    (hp : List.Perm q'.receipts q.receipts) : q'.Wf where
  nodup := hp.nodup_iff.2 hq.nodup
  lt_next x hx := by rw [hn]; exact hq.lt_next x (hp.mem_iff.1 hx)

theorem wf_of_sublist {q q' : QueueState} (hq : q.Wf) (hn : q'.nextReceipt = q.nextReceipt)
    (hs : List.Sublist q'.receipts q.receipts) : q'.Wf where
  nodup := hs.nodup hq.nodup
  lt_next x hx := by rw [hn]; exact hq.lt_next x (hs.subset hx)

theorem wf_append {q : QueueState} (hq : q.Wf) (item : WorkItem) : (q.append item).Wf := by
  have hp : List.Perm (q.append item).receipts (q.nextReceipt :: q.receipts) := by
    simp only [receipts, append, List.map_append, List.map_cons, List.map_nil, List.append_assoc,
      List.singleton_append]
    exact List.perm_middle
  constructor
  · rw [hp.nodup_iff, List.nodup_cons]
    exact ⟨fun h => Nat.lt_irrefl _ (hq.lt_next _ h), hq.nodup⟩
  · intro x hx
    rcases List.mem_cons.1 (hp.mem_iff.1 hx) with rfl | hx
    · exact Nat.lt_succ_self _
    · exact Nat.lt_succ_of_lt (hq.lt_next x hx)

theorem wf_send {q q' : QueueState} {items : List WorkItem} (hq : q.Wf)
    (h : q.send items = some q') : q'.Wf := by
  have hall : ∀ (items : List WorkItem) (q : QueueState), q.Wf → (items.foldl append q).Wf := by
    intro items
    induction items with
    | nil => intro q hq; exact hq
    | cons i items ih => intro q hq; exact ih _ (wf_append hq i)
  simp only [send] at h
  split at h
  · cases h; exact hq
  · split at h
    · cases h
    · cases h; exact hall items q hq

theorem receipts_promoteDue (q : QueueState) (now : Micros) :
    (q.promoteDue now).receipts = q.receipts := by
  simp only [receipts, promoteDue, List.map_append, List.map_map]
  conv => rhs; rw [← List.takeWhile_append_dropWhile (p := due now) (l := q.delayed)]
  simp only [List.map_append, List.append_assoc]
  rfl

theorem wf_promoteDue {q : QueueState} (hq : q.Wf) (now : Micros) : (q.promoteDue now).Wf :=
  wf_of_perm hq rfl (by rw [receipts_promoteDue])

/-- Setting keys that are not there appends them. -/
theorem map_receipt_deliver (l : List (ReceivedItem Uuid)) :
    (l.map deliver).map (·.receipt) = l.map (·.receipt) := by
  rw [List.map_map]; rfl

/-- What is in flight and what is taken next have different receipts. -/
theorem nodup_inFlight_taken {q : QueueState} (hq : q.Wf) (maxItems : Nat) :
    (q.inFlight.keys ++ ((q.ready.take maxItems).map deliver).map (·.receipt)).Nodup := by
  have hsub : List.Sublist ((q.ready.take maxItems).map (·.receipt) ++ q.inFlight.keys)
      q.receipts := by
    refine List.Sublist.append ?_ (List.Sublist.refl _)
    exact ((List.take_sublist _ _).map _).trans (List.sublist_append_left _ _)
  rw [map_receipt_deliver]
  exact List.perm_append_comm.nodup_iff.1 (hsub.nodup hq.nodup)

/-- What is taken goes behind what is in flight. -/
theorem inFlight_takeReady {q : QueueState} (hq : q.Wf) (maxItems : Nat) :
    (q.takeReady maxItems).1.inFlight.items = q.inFlight.items ++
      (q.takeReady maxItems).2.map fun r => (r.receipt, r.item, r.attempts) := by
  simp only [takeReady]
  exact Dict.items_foldl_set _ _ _ _ (nodup_inFlight_taken hq maxItems)

theorem keys_takeReady {q : QueueState} (hq : q.Wf) (maxItems : Nat) :
    (q.takeReady maxItems).1.inFlight.keys =
      q.inFlight.keys ++ (q.takeReady maxItems).2.map (·.receipt) := by
  rw [Dict.keys, inFlight_takeReady hq, List.map_append, List.map_map]
  rfl

theorem receipts_takeReady {q : QueueState} (hq : q.Wf) (maxItems : Nat) :
    List.Perm (q.takeReady maxItems).1.receipts q.receipts := by
  have hsplit : q.receipts = (q.ready.take maxItems).map (·.receipt) ++
      ((q.ready.drop maxItems).map (·.receipt) ++ q.delayed.map (·.2.receipt) ++
        q.inFlight.keys) := by
    conv => lhs; rw [receipts, ← List.take_append_drop maxItems q.ready]
    simp only [List.map_append, List.append_assoc]
  have hkeys : (q.takeReady maxItems).1.inFlight.keys =
      q.inFlight.keys ++ (q.ready.take maxItems).map (·.receipt) := by
    rw [keys_takeReady hq]
    exact congrArg _ (map_receipt_deliver (q.ready.take maxItems))
  have : (q.takeReady maxItems).1.receipts =
      (q.ready.drop maxItems).map (·.receipt) ++ q.delayed.map (·.2.receipt) ++
        q.inFlight.keys ++ (q.ready.take maxItems).map (·.receipt) := by
    rw [receipts, hkeys, List.append_assoc, List.append_assoc, List.append_assoc]
    rfl
  rw [this, hsplit]
  exact List.perm_append_comm

theorem wf_takeReady {q : QueueState} (hq : q.Wf) (maxItems : Nat) :
    (q.takeReady maxItems).1.Wf :=
  wf_of_perm hq rfl (receipts_takeReady hq maxItems)

theorem nodup_takeReady {q : QueueState} (hq : q.Wf) (maxItems : Nat) :
    ((q.takeReady maxItems).2.map (·.receipt)).Nodup := by
  simp only [takeReady]
  rw [map_receipt_deliver]
  have h : (q.ready.map (·.receipt)).Nodup :=
    (List.nodup_append.1 (List.nodup_append.1 hq.nodup).1).1
  exact ((List.take_sublist maxItems q.ready).map _).nodup h

theorem wf_receive {q : QueueState} (hq : q.Wf) (maxItems : Nat) (clock : List Micros) :
    (q.receive maxItems clock).1.Wf ∧ ((q.receive maxItems clock).2.map (·.receipt)).Nodup := by
  induction clock generalizing q with
  | nil => exact ⟨hq, List.nodup_nil⟩
  | cons now clock ih =>
    have hp := wf_promoteDue hq now
    simp only [receive]
    split
    · exact ih (wf_takeReady hp maxItems)
    · exact ⟨wf_takeReady hp maxItems, nodup_takeReady hp maxItems⟩

theorem keys_pop_sublist (d : Dict Uuid (WorkItem × Nat)) (k : Uuid) :
    List.Sublist (d.pop k).keys d.keys := List.filter_sublist.map _

theorem wf_ack {q : QueueState} (hq : q.Wf) (receipt : Uuid) : (q.ack receipt).Wf :=
  wf_of_sublist hq rfl (List.Sublist.append_left (keys_pop_sublist _ _) _)

theorem perm_keys_pop {d : Dict Uuid (WorkItem × Nat)} {k : Uuid} (hk : k ∈ d.keys) :
    List.Perm (k :: (d.pop k).keys) d.keys := by
  have hpop : (d.pop k).keys = d.keys.filter (· ≠ k) := by
    rw [Dict.keys, Dict.pop, Dict.keys, List.filter_map]
    rfl
  rw [hpop]
  have herase : d.keys.filter (· ≠ k) = d.keys.erase k := by
    have hnd : d.keys.Nodup := d.nodup
    rw [hnd.erase_eq_filter]
    refine List.filter_congr fun x _ => ?_
    rw [decide_not]
    rfl
  rw [herase]
  exact (List.perm_cons_erase hk).symm

theorem wf_nack {q : QueueState} (hq : q.Wf) (receipt : Uuid) (delaySeconds : Int)
    (now : Micros) : (q.nack receipt delaySeconds now).Wf := by
  simp only [nack]
  split
  · exact hq
  · rename_i item attempts hget
    refine wf_of_perm hq rfl ?_
    have hmem : receipt ∈ q.inFlight.keys := by
      by_contra hn
      rw [Dict.get?_eq_none.2 hn] at hget
      cases hget
    simp only [receipts]
    refine List.Perm.trans ?_ (List.Perm.append_left _ (perm_keys_pop hmem))
    rw [List.append_assoc, List.append_assoc]
    refine List.Perm.append_left _ ?_
    refine ((List.perm_insertionSort _ _).map _).append_right _ |>.trans ?_
    rw [List.map_append, List.append_assoc]
    rfl

end QueueState

/-- The in-memory queue: a queue state with every receipt in one place. -/
structure InProcessQueue where
  state : QueueState
  wf : state.Wf

namespace InProcessQueue

def empty (maxsize : Nat) : InProcessQueue where
  state := ⟨maxsize, 0, [], [], .empty⟩
  wf := ⟨List.nodup_nil, by intro x hx; cases hx⟩

def send (q : InProcessQueue) (items : List WorkItem) : Option InProcessQueue :=
  match h : q.state.send items with
  | none => none
  | some state => some ⟨state, QueueState.wf_send q.wf h⟩

/-- The in-memory queue as the worker uses it. -/
def inProcess : WorkQueue InProcessQueue Uuid where
  receive q maxItems clock :=
    (⟨(q.state.receive maxItems clock).1, (QueueState.wf_receive q.wf maxItems clock).1⟩,
      ⟨(q.state.receive maxItems clock).2, (QueueState.wf_receive q.wf maxItems clock).2⟩)
  ack q receipt := ⟨q.state.ack receipt, QueueState.wf_ack q.wf receipt⟩
  nack q receipt delaySeconds now :=
    ⟨q.state.nack receipt delaySeconds now, QueueState.wf_nack q.wf receipt delaySeconds now⟩

end InProcessQueue

end Constat
