import Constat.QueueRun

/-!
# QueueFairness

The order in which the in-memory queue hands its items out. New items and items whose delay has
passed go behind the ready ones, and a `receive` takes from the front, so nothing that comes later
overtakes an item that is waiting; a nacked item goes to the back.

* `waiting`    — what a look at the queue finds, in the order it will be handed out.
* `deliveries` — what a sequence of calls hands out.
-/

namespace Constat

namespace QueueRun

open Trace QueueState

def readyReceipts (s : Run) : List Uuid := s.queue.ready.map (·.receipt)

/-- The ready items, then the delayed ones that are due, the earliest first. -/
def waiting (s : Run) (now : Micros) : List Uuid :=
  (s.queue.ready ++ (s.queue.delayed.filter (due now)).map (·.2)).map (·.receipt)

/-- The receipts one call hands out. -/
def handed (s : Run) : Call → List Uuid
  | .receive maxItems clock => (s.queue.receive maxItems clock).2.map (·.receipt)
  | _ => []

def deliveries : Run → List Call → List Uuid
  | _, [] => []
  | s, c :: calls => handed s c ++ deliveries (step s c) calls

/-! ## One call -/

theorem append_ready (items : List WorkItem) (q : QueueState) :
    q.ready <+: (items.foldl append q).ready := by
  induction items generalizing q with
  | nil => exact List.prefix_rfl
  | cons item items ih => exact (List.prefix_append _ _).trans (ih (q.append item))

/-- A pass takes from the front of what is ready and due. -/
theorem pass_order {q : QueueState} (h : q.delayed.Pairwise fun a b => a.1 ≤ b.1) (now : Micros)
    (maxItems : Nat) :
    ((q.promoteDue now).takeReady maxItems).2.map (·.receipt) ++
        ((q.promoteDue now).takeReady maxItems).1.ready.map (·.receipt) =
      (q.ready ++ (q.delayed.filter (due now)).map (·.2)).map (·.receipt) := by
  obtain ⟨hout, hready, _⟩ := pass_spec h now maxItems
  rw [hout, hready, map_receipt_deliver, ← List.map_append, List.take_append_drop]

/-- What a receive leaves ready stands behind what it hands out. -/
def Orders (clock : List Micros) : Prop :=
  ∀ {q : QueueState} (maxItems : Nat), (q.delayed.Pairwise fun a b => a.1 ≤ b.1) →
    q.ready.map (·.receipt) <+: (q.receive maxItems clock).2.map (·.receipt) ++
      (q.receive maxItems clock).1.ready.map (·.receipt)

/-- A pass that hands nothing out leaves what it has promoted ready, for the next one. -/
theorem receive_waiting {clock : List Micros} (hclock : Orders clock) {q : QueueState}
    (h : q.delayed.Pairwise fun a b => a.1 ≤ b.1) (now : Micros) (maxItems : Nat) :
    (q.ready ++ (q.delayed.filter (due now)).map (·.2)).map (·.receipt) <+:
      (q.receive maxItems (now :: clock)).2.map (·.receipt) ++
        (q.receive maxItems (now :: clock)).1.ready.map (·.receipt) := by
  have horder := pass_order h now maxItems
  obtain ⟨_, _, hdelayed⟩ := pass_spec h now maxItems
  simp only [QueueState.receive]
  generalize (q.promoteDue now).takeReady maxItems = p at horder hdelayed
  split
  · rename_i hnone
    rw [List.isEmpty_iff.1 hnone, List.map_nil, List.nil_append] at horder
    rw [← horder]
    exact hclock maxItems (hdelayed ▸ h.sublist List.filter_sublist)
  · simp only [horder, List.prefix_rfl]

/-- Induction on the readings of the clock. -/
theorem orders (clock : List Micros) : Orders clock := by
  induction clock with
  | nil => exact fun _ _ => List.prefix_rfl
  | cons now clock ih =>
    intro q maxItems h
    refine List.IsPrefix.trans ?_ (receive_waiting ih h now maxItems)
    rw [List.map_append]
    exact List.prefix_append _ _

/-- Whatever a call does, what was ready is handed out or still ready, and in front. -/
theorem step_order {maxsize : Nat} {s : Run} (h : Inv maxsize s) (c : Call) :
    readyReceipts s <+: handed s c ++ readyReceipts (step s c) := by
  cases c with
  | send items =>
    simp only [handed, List.nil_append, step]
    cases hsend : s.queue.send items with
    | none => exact List.prefix_rfl
    | some q =>
      show s.queue.ready.map (·.receipt) <+: q.ready.map (·.receipt)
      refine List.IsPrefix.map _ ?_
      simp only [QueueState.send] at hsend
      split at hsend
      · cases hsend
        exact List.prefix_rfl
      · split at hsend
        · cases hsend
        · cases hsend
          exact append_ready items s.queue
  | receive maxItems clock => exact orders clock maxItems h.sorted
  | ack receipt =>
    simp only [handed, List.nil_append, step]
    split <;> exact List.prefix_rfl
  | nack receipt delay now =>
    simp only [handed, List.nil_append, step, readyReceipts, nackFor]
    split <;> exact List.prefix_rfl

/-! ## Any calls -/

/-- Two lists of which one begins with the other. -/
theorem comparable_append {l l' : List Uuid} (front : List Uuid) (h : l <+: l' ∨ l' <+: l) :
    front ++ l <+: front ++ l' ∨ front ++ l' <+: front ++ l :=
  h.imp (List.prefix_append_right_inj front).2 (List.prefix_append_right_inj front).2

theorem comparable_of_prefix {l l' whole : List Uuid} (hl : l <+: whole)
    (h : whole <+: l' ∨ l' <+: whole) : l <+: l' ∨ l' <+: l :=
  h.elim (fun hw => .inl (hl.trans hw)) fun hw => List.prefix_or_prefix_of_prefix hl hw

/-- Induction on the calls: each hands out the front of what is ready and puts the rest behind. -/
theorem deliveries_order {maxsize : Nat} (calls : List Call) : ∀ {s : Run}, Inv maxsize s →
    readyReceipts s <+: deliveries s calls ∨ deliveries s calls <+: readyReceipts s := by
  induction calls with
  | nil => exact fun _ => .inr (List.nil_prefix)
  | cons c calls ih =>
    intro s h
    exact comparable_of_prefix (step_order h c) (comparable_append (handed s c) (ih (h.step c)))

/-- **First come, first served**: in every history, whatever is ready or due when a `receive` looks
at the queue is handed out before anything else and in its order, whatever is sent, acked or nacked
from then on. There are at most `maxsize` such items. -/
theorem first_come_first_served (maxsize : Nat) (before after : List Call) (maxItems : Nat)
    (now : Micros) (clock : List Micros) :
    (waiting (exec step (start maxsize) before) now).length ≤ maxsize ∧
      (waiting (exec step (start maxsize) before) now <+:
          deliveries (exec step (start maxsize) before) (.receive maxItems (now :: clock) :: after) ∨
        deliveries (exec step (start maxsize) before) (.receive maxItems (now :: clock) :: after) <+:
          waiting (exec step (start maxsize) before) now) := by
  have h : Inv maxsize (exec step (start maxsize) before) :=
    exec_inv (fun _ c h => h.step c) (inv_start maxsize) before
  generalize exec step (start maxsize) before = s at h
  constructor
  · have hle : (waiting s now).length ≤ s.queue.entries.length := by
      simp only [waiting, entries, List.length_map, List.length_append]
      have hfilter := List.length_filter_le (due now) s.queue.delayed
      omega
    exact hle.trans h.bounded
  · have hlater := deliveries_order after (h.step (.receive maxItems (now :: clock)))
    exact comparable_of_prefix (receive_waiting (orders clock) h.sorted now maxItems)
      (comparable_append (handed s (.receive maxItems (now :: clock))) hlater)

end QueueRun

end Constat
