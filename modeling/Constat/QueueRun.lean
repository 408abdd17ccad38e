import Constat.Lib.Trace
import Constat.CollectQueue

/-!
# QueueRun

Runs of the in-memory queue of `collect_queue.py`: any sequence of calls of `send`, `receive`,
`ack` and `nack`. A run keeps a log of what happened to the receipts: an item was accepted under a
receipt, an item was handed out, an item in flight was acked. A settle with a receipt that is not in
flight is no settle and leaves no mark.

* `entries`   — the items of a queue state wherever they are: ready, delayed or in flight.
* `Delivers`  — what a `receive` does to the entries: some of them are handed out once more.
* `conserves` — no item is lost or doubled, no acked item comes back, the queue stays within its
                bound, and a `receive` finds the delayed items that are due, in due order.
-/

namespace Constat

namespace QueueState

open Trace

def inFlightEntry (p : Uuid × WorkItem × Nat) : ReceivedItem Uuid := ⟨p.1, p.2.1, p.2.2⟩

/-- The items the queue still owes a worker. -/
def entries (q : QueueState) : List (ReceivedItem Uuid) :=
  q.ready ++ q.delayed.map (·.2) ++ q.inFlight.items.map inFlightEntry

/-- `nack` with any delay; the worker passes whole seconds. -/
def nackFor (q : QueueState) (receipt : Uuid) (delay : Micros) (now : Micros) : QueueState :=
  match q.inFlight.get? receipt with
  | none => q
  | some (item, attempts) =>
    let entry : Micros × ReceivedItem Uuid := (now + max delay 0, ⟨receipt, item, attempts⟩)
    { q with
      inFlight := q.inFlight.pop receipt
      delayed := (q.delayed ++ [entry]).insertionSort (fun a b => a.1 ≤ b.1) }

theorem nack_eq (q : QueueState) (receipt : Uuid) (delaySeconds : Int) (now : Micros) :
    q.nack receipt delaySeconds now = q.nackFor receipt (delaySeconds * 1000000) now := by
  have hmax : max delaySeconds 0 * 1000000 = max (delaySeconds * 1000000) 0 := by omega
  cases h : q.inFlight.get? receipt with
  | none => simp [nack, nackFor, h]
  | some p => simp [nack, nackFor, h, hmax]

theorem map_receipt_entries (q : QueueState) : q.entries.map (·.receipt) = q.receipts := by
  simp only [entries, receipts, List.map_append, List.map_map, Dict.keys]
  rfl

theorem length_entries (q : QueueState) : q.entries.length = q.pendingCount := by
  simp [entries, pendingCount, Nat.add_assoc]

theorem nodup_entries {q : QueueState} (hq : q.Wf) : (q.entries.map (·.receipt)).Nodup := by
  rw [map_receipt_entries]
  exact hq.nodup

theorem lt_next_of_mem {q : QueueState} (hq : q.Wf) {e : ReceivedItem Uuid} (he : e ∈ q.entries) :
    e.receipt < q.nextReceipt :=
  hq.lt_next _ (map_receipt_entries q ▸ List.mem_map_of_mem he)

/-! ## What the operations do to the entries -/

theorem entries_append (q : QueueState) (item : WorkItem) :
    (q.append item).entries.Perm (⟨q.nextReceipt, item, 0⟩ :: q.entries) := by
  simp only [entries, append, List.append_assoc, List.singleton_append]
  exact List.perm_middle

/-- Some entries are handed out once more; the delayed ones stay in their order. -/
structure Delivers (q q' : QueueState) (out : List (ReceivedItem Uuid)) : Prop where
  split : ∃ taken rest, out = taken.map deliver ∧ q.entries.Perm (taken ++ rest) ∧
    q'.entries.Perm (out ++ rest)
  delayed : List.Sublist q'.delayed q.delayed
  maxsize : q'.maxsize = q.maxsize
  nextReceipt : q'.nextReceipt = q.nextReceipt

theorem entries_promoteDue (q : QueueState) (now : Micros) :
    (q.promoteDue now).entries = q.entries := by
  simp only [entries, promoteDue]
  conv => rhs; rw [← List.takeWhile_append_dropWhile (p := due now) (l := q.delayed)]
  simp only [List.map_append, List.append_assoc]

theorem delivers_takeReady {q : QueueState} (hq : q.Wf) (maxItems : Nat) :
    Delivers q (q.takeReady maxItems).1 (q.takeReady maxItems).2 := by
  refine ⟨⟨q.ready.take maxItems,
    q.ready.drop maxItems ++ (q.delayed.map (·.2) ++ q.inFlight.items.map inFlightEntry), rfl,
    ?_, ?_⟩, List.Sublist.refl _, rfl, rfl⟩
  · rw [← List.append_assoc, List.take_append_drop, entries, List.append_assoc]
  · have hitems : (q.takeReady maxItems).1.inFlight.items.map inFlightEntry =
        q.inFlight.items.map inFlightEntry ++ (q.takeReady maxItems).2 := by
      rw [inFlight_takeReady hq, List.map_append, List.map_map]
      exact congrArg _ (List.map_id _)
    have hentries : (q.takeReady maxItems).1.entries =
        q.ready.drop maxItems ++ q.delayed.map (·.2) ++
          (q.inFlight.items.map inFlightEntry ++ (q.takeReady maxItems).2) := by
      rw [← hitems]
      rfl
    rw [hentries, ← List.append_assoc, List.append_assoc (q.ready.drop maxItems)]
    exact List.perm_append_comm

theorem Delivers.trans {q q₁ q' : QueueState} {out : List (ReceivedItem Uuid)}
    (h : Delivers q q₁ []) (h' : Delivers q₁ q' out) : Delivers q q' out := by
  obtain ⟨taken, rest, hnil, hq, hq₁⟩ := h.split
  obtain ⟨taken', rest', hout, hq₁', hq'⟩ := h'.split
  have htaken : taken = [] := List.map_eq_nil_iff.1 hnil.symm
  subst htaken
  exact ⟨⟨taken', rest', hout, (hq.trans hq₁.symm).trans hq₁', hq'⟩, h'.delayed.trans h.delayed,
    h'.maxsize.trans h.maxsize, h'.nextReceipt.trans h.nextReceipt⟩

theorem delivers_promoteDue (q : QueueState) (now : Micros) : Delivers q (q.promoteDue now) [] :=
  ⟨⟨[], q.entries, rfl, .refl _, .of_eq (entries_promoteDue q now)⟩, List.dropWhile_sublist _,
    rfl, rfl⟩

theorem delivers_receive {q : QueueState} (hq : q.Wf) (maxItems : Nat) (clock : List Micros) :
    Delivers q (q.receive maxItems clock).1 (q.receive maxItems clock).2 := by
  induction clock generalizing q with
  | nil => exact ⟨⟨[], q.entries, rfl, .refl _, .refl _⟩, .refl _, rfl, rfl⟩
  | cons now clock ih =>
    have hp := wf_promoteDue hq now
    have hpass := (delivers_promoteDue q now).trans (delivers_takeReady hp maxItems)
    simp only [receive]
    split
    · rename_i hnone
      rw [List.isEmpty_iff.1 hnone] at hpass
      exact hpass.trans (ih (wf_takeReady hp maxItems))
    · exact hpass

/-- An ack of an item in flight removes its entry, and only that. -/
theorem mem_entries_ack {q : QueueState} (hq : q.Wf) {receipt : Uuid} {e : ReceivedItem Uuid}
    (hin : receipt ∈ q.inFlight.keys) :
    e ∈ (q.ack receipt).entries ↔ e ∈ q.entries ∧ e.receipt ≠ receipt := by
  have hwaiting : e ∈ q.ready ++ q.delayed.map (·.2) → e.receipt ≠ receipt := by
    intro he hrec
    have hreceipts : q.receipts = (q.ready ++ q.delayed.map (·.2)).map (·.receipt) ++
        q.inFlight.keys := by
      simp only [receipts, List.map_append, List.map_map]
      rfl
    have hnd := hq.nodup
    rw [hreceipts] at hnd
    exact (List.nodup_append.1 hnd).2.2 _ (List.mem_map_of_mem he) _ hin hrec
  have hpop : e ∈ (q.inFlight.pop receipt).items.map inFlightEntry ↔
      e ∈ q.inFlight.items.map inFlightEntry ∧ e.receipt ≠ receipt := by
    simp only [Dict.pop, List.mem_map, List.mem_filter, decide_eq_true_eq]
    constructor
    · rintro ⟨p, ⟨hp, hne⟩, rfl⟩
      exact ⟨⟨p, hp, rfl⟩, hne⟩
    · rintro ⟨⟨p, hp, rfl⟩, hne⟩
      exact ⟨p, ⟨hp, hne⟩, rfl⟩
  constructor
  · intro he
    rcases List.mem_append.1 he with he | he
    · exact ⟨List.mem_append_left _ he, hwaiting he⟩
    · exact ⟨List.mem_append_right _ (hpop.1 he).1, (hpop.1 he).2⟩
  · rintro ⟨he, hne⟩
    rcases List.mem_append.1 he with he | he
    · exact List.mem_append_left _ he
    · exact List.mem_append_right _ (hpop.2 ⟨he, hne⟩)

theorem entries_ack_sublist (q : QueueState) (receipt : Uuid) :
    List.Sublist (q.ack receipt).entries q.entries :=
  List.Sublist.append_left (List.filter_sublist.map _) _

/-- A nack moves an entry, whatever the delay. -/
theorem entries_nackFor (q : QueueState) (receipt : Uuid) (delay now : Micros) :
    (q.nackFor receipt delay now).entries.Perm q.entries := by
  simp only [nackFor]
  split
  · exact .refl _
  · rename_i item attempts hget
    have hitem := Dict.get?_eq_some.1 hget
    have hpop : (q.inFlight.pop receipt).items = q.inFlight.items.erase (receipt, item, attempts) := by
      have hnd : q.inFlight.items.Nodup := List.Nodup.of_map _ q.inFlight.nodup
      rw [Dict.pop, hnd.erase_eq_filter]
      refine List.filter_congr fun p hp => ?_
      rw [Bool.eq_iff_iff, decide_eq_true_eq, bne_iff_ne]
      constructor
      · rintro hne rfl
        exact hne rfl
      · intro hne hrec
        exact hne (List.inj_on_of_nodup_map q.inFlight.nodup hp hitem hrec)
    have hflight : (inFlightEntry (receipt, item, attempts) ::
        (q.inFlight.pop receipt).items.map inFlightEntry).Perm
          (q.inFlight.items.map inFlightEntry) := by
      rw [hpop, ← List.map_cons]
      exact (List.perm_cons_erase hitem).symm.map _
    have hdelayed : ((q.delayed ++ [(now + max delay 0, (⟨receipt, item, attempts⟩ :
        ReceivedItem Uuid))]).insertionSort fun a b => a.1 ≤ b.1).map (·.2) |>.Perm
          (q.delayed.map (·.2) ++ [inFlightEntry (receipt, item, attempts)]) := by
      refine ((List.perm_insertionSort _ _).map _).trans (.of_eq ?_)
      rw [List.map_append]
      rfl
    simp only [entries]
    refine ((hdelayed.append_left q.ready).append_right _).trans ?_
    rw [← List.append_assoc q.ready, List.append_assoc, List.singleton_append]
    exact hflight.append_left _

end QueueState

/-! ## Runs -/

namespace QueueRun

open Trace QueueState

inductive Mark where
  | sent (receipt : Uuid) (item : WorkItem)
  | delivered (receipt : Uuid)
  | acked (receipt : Uuid)
deriving DecidableEq

def Mark.receipt : Mark → Uuid
  | .sent r _ => r
  | .delivered r => r
  | .acked r => r

/-- A `receive` reads the clock each time it looks at the queue, a `nack` once. -/
inductive Call where
  | send (items : List WorkItem)
  | receive (maxItems : Nat) (clock : List Micros)
  | ack (receipt : Uuid)
  | nack (receipt : Uuid) (delay : Micros) (now : Micros)

def Call.readings : Call → List Micros
  | .receive _ clock => clock
  | .nack _ _ now => [now]
  | _ => []

structure Run where
  queue : QueueState
  log : List Mark

def start (maxsize : Nat) : Run := ⟨(InProcessQueue.empty maxsize).state, []⟩

/-- The receipts a send draws. -/
def sentMarks (next : Uuid) (items : List WorkItem) : List Mark :=
  (items.zipIdx next).map fun p => .sent p.2 p.1

def step (s : Run) : Call → Run
  | .send items =>
    match s.queue.send items with
    | none => s
    | some queue => ⟨queue, s.log ++ sentMarks s.queue.nextReceipt items⟩
  | .receive maxItems clock =>
    let (queue, out) := s.queue.receive maxItems clock
    ⟨queue, s.log ++ out.map fun r => .delivered r.receipt⟩
  | .ack receipt =>
    if receipt ∈ s.queue.inFlight.keys then ⟨s.queue.ack receipt, s.log ++ [.acked receipt]⟩
    else s
  | .nack receipt delay now => ⟨s.queue.nackFor receipt delay now, s.log⟩

/-- What the queue promises of the receipts in its log. -/
structure Conserved (maxsize : Nat) (s : Run) : Prop where
  /-- An item that is not acked is in one place. -/
  once : ∀ r item, .sent r item ∈ s.log → .acked r ∉ s.log →
    s.queue.ready.countP (fun e => e.receipt = r ∧ e.item = item) +
      s.queue.delayed.countP (fun e => e.2.receipt = r ∧ e.2.item = item) +
      s.queue.inFlight.items.countP (fun e => e.1 = r ∧ e.2.1 = item) = 1
  settled : s.log.Pairwise fun earlier later => ∀ r, earlier = .acked r → later ≠ .delivered r
  bounded : s.queue.ready.length + s.queue.delayed.length + s.queue.inFlight.items.length ≤ maxsize
  attempts : ∀ e ∈ s.queue.entries, e.attempts = s.log.count (.delivered e.receipt)
  sorted : s.queue.delayed.Pairwise fun a b => a.1 ≤ b.1

/-- A `receive` looks at the queue at a time `t`: the items whose delay has passed stand behind the
ready ones, the earliest due first, and the first of all these are handed out. -/
def Prompt (s : Run) : Call → Prop
  | .receive maxItems (now :: clock) => ∃ t ∈ now :: clock,
    let ready := s.queue.ready ++ (s.queue.delayed.filter (due t)).map (·.2)
    (s.queue.receive maxItems (now :: clock)).2 = (ready.take maxItems).map deliver ∧
      (s.queue.receive maxItems (now :: clock)).1.ready = ready.drop maxItems ∧
      (s.queue.receive maxItems (now :: clock)).1.delayed =
        s.queue.delayed.filter fun e => !due t e
  | _ => True

/-! ### The invariant -/

structure Inv (maxsize : Nat) (s : Run) : Prop where
  wf : s.queue.Wf
  maxsize_eq : s.queue.maxsize = maxsize
  bounded : s.queue.entries.length ≤ maxsize
  sorted : s.queue.delayed.Pairwise fun a b => a.1 ≤ b.1
  present : ∀ e ∈ s.queue.entries, .sent e.receipt e.item ∈ s.log ∧ .acked e.receipt ∉ s.log ∧
    e.attempts = s.log.count (.delivered e.receipt)
  kept : ∀ r item, .sent r item ∈ s.log →
    .acked r ∈ s.log ∨ ∃ e ∈ s.queue.entries, e.receipt = r ∧ e.item = item
  drawn : ∀ m ∈ s.log, m.receipt < s.queue.nextReceipt
  settled : s.log.Pairwise fun earlier later => ∀ r, earlier = .acked r → later ≠ .delivered r

theorem inv_start (maxsize : Nat) : Inv maxsize (start maxsize) where
  wf := (InProcessQueue.empty maxsize).wf
  maxsize_eq := rfl
  bounded := Nat.zero_le _
  sorted := List.Pairwise.nil
  present e he := by cases he
  kept r item h := by cases h
  drawn m hm := by cases hm
  settled := List.Pairwise.nil

theorem Inv.conserved {maxsize : Nat} {s : Run} (h : Inv maxsize s) : Conserved maxsize s := by
  refine ⟨fun r item hsent hacked => ?_, h.settled, ?_, fun e he => (h.present e he).2.2, h.sorted⟩
  · rcases h.kept r item hsent with hack | ⟨e, he, hr, hi⟩
    · exact absurd hack hacked
    · have hcount : s.queue.entries.countP (fun e => e.receipt = r ∧ e.item = item) = 1 := by
        refine Nat.le_antisymm ?_ (List.countP_pos_iff.2 ⟨e, he, decide_eq_true ⟨hr, hi⟩⟩)
        have hone : s.queue.entries.countP (fun e => e.receipt = r) ≤ 1 := by
          have hnd := List.nodup_iff_count_le_one.1 (nodup_entries h.wf) r
          rw [List.count, List.countP_map] at hnd
          exact (List.countP_mono_left fun x _ hx => by simpa using hx).trans hnd
        refine (List.countP_mono_left fun x _ hx => ?_).trans hone
        exact decide_eq_true (of_decide_eq_true hx).1
      rw [entries, List.countP_append, List.countP_append, List.countP_map, List.countP_map] at hcount
      exact hcount
  · have hlength := h.bounded
    rw [length_entries] at hlength
    exact hlength

/-- One item more, with a new receipt. -/
theorem Inv.append {maxsize : Nat} {s : Run} (h : Inv maxsize s) (item : WorkItem)
    (hroom : s.queue.entries.length + 1 ≤ maxsize) :
    Inv maxsize ⟨s.queue.append item, s.log ++ [.sent s.queue.nextReceipt item]⟩ := by
  have hperm := entries_append s.queue item
  have hunused : ∀ m ∈ s.log, m.receipt ≠ s.queue.nextReceipt := fun m hm =>
    Nat.ne_of_lt (h.drawn m hm)
  refine ⟨wf_append h.wf item, h.maxsize_eq, ?_, h.sorted, fun e he => ?_, fun r i hsent => ?_,
    fun m hm => ?_, ?_⟩
  · rw [hperm.length_eq]
    exact hroom
  · rcases List.mem_cons.1 (hperm.mem_iff.1 he) with rfl | he
    · refine ⟨by simp, fun hack => ?_, ?_⟩
      · rcases List.mem_append.1 hack with hack | hack
        · exact hunused _ hack rfl
        · simp at hack
      · symm
        rw [List.count_eq_zero]
        intro hdel
        rcases List.mem_append.1 hdel with hdel | hdel
        · exact hunused _ hdel rfl
        · simp at hdel
    · obtain ⟨hsent, hack, hattempts⟩ := h.present e he
      refine ⟨List.mem_append_left _ hsent, fun hack' => ?_, ?_⟩
      · rcases List.mem_append.1 hack' with hack' | hack'
        · exact hack hack'
        · simp at hack'
      · rw [hattempts, List.count_append]
        simp
  · rcases List.mem_append.1 hsent with hsent | hsent
    · rcases h.kept r i hsent with hack | ⟨e, he, hr⟩
      · exact .inl (List.mem_append_left _ hack)
      · exact .inr ⟨e, hperm.mem_iff.2 (List.mem_cons_of_mem _ he), hr⟩
    · simp only [List.mem_singleton, Mark.sent.injEq] at hsent
      obtain ⟨rfl, rfl⟩ := hsent
      exact .inr ⟨_, hperm.mem_iff.2 List.mem_cons_self, rfl, rfl⟩
  · rcases List.mem_append.1 hm with hm | hm
    · exact Nat.lt_succ_of_lt (h.drawn m hm)
    · rw [List.mem_singleton.1 hm]
      exact Nat.lt_succ_self _
  · refine List.pairwise_append.2 ⟨h.settled, List.pairwise_singleton _ _, ?_⟩
    intro a _ b hb r _ hdel
    rw [List.mem_singleton.1 hb] at hdel
    cases hdel

theorem Inv.appendAll {maxsize : Nat} (items : List WorkItem) : ∀ {s : Run}, Inv maxsize s →
    s.queue.entries.length + items.length ≤ maxsize →
    Inv maxsize ⟨items.foldl QueueState.append s.queue,
      s.log ++ sentMarks s.queue.nextReceipt items⟩ := by
  induction items with
  | nil => intro s h _; simpa [sentMarks] using h
  | cons item items ih =>
    intro s h hroom
    rw [List.length_cons] at hroom
    have hlength := (entries_append s.queue item).length_eq
    rw [List.length_cons] at hlength
    have hall := ih (h.append item (by omega)) (by simp only; omega)
    have hmarks : sentMarks s.queue.nextReceipt (item :: items) =
        [.sent s.queue.nextReceipt item] ++ sentMarks (s.queue.nextReceipt + 1) items := rfl
    rw [List.foldl_cons, hmarks, ← List.append_assoc]
    exact hall

theorem Inv.send {maxsize : Nat} {s : Run} (h : Inv maxsize s) (items : List WorkItem) :
    Inv maxsize (step s (.send items)) := by
  simp only [step]
  split
  · exact h
  · rename_i queue hsend
    simp only [QueueState.send] at hsend
    split at hsend
    · rename_i hnil
      cases hsend
      rw [List.isEmpty_iff.1 hnil]
      simpa [sentMarks] using h
    · split at hsend
      · cases hsend
      · rename_i hroom
        cases hsend
        refine h.appendAll items ?_
        rw [length_entries, ← h.maxsize_eq]
        omega

theorem count_delivered (out : List (ReceivedItem Uuid)) (r : Uuid) :
    (out.map fun e => Mark.delivered e.receipt).count (.delivered r) =
      (out.map (·.receipt)).count r := by
  rw [List.count, List.count, List.countP_map, List.countP_map]
  refine List.countP_congr fun e _ => ?_
  simp

theorem Inv.receive {maxsize : Nat} {s : Run} (h : Inv maxsize s) (maxItems : Nat)
    (clock : List Micros) : Inv maxsize (step s (.receive maxItems clock)) := by
  have hwf := (wf_receive h.wf maxItems clock).1
  obtain ⟨⟨taken, rest, hout, hq, hq'⟩, hdelayed, hmaxsize, hnext⟩ :=
    delivers_receive h.wf maxItems clock
  simp only [step]
  generalize s.queue.receive maxItems clock = p at hwf hout hq' hdelayed hmaxsize hnext
  obtain ⟨queue, out⟩ := p
  simp only at hwf hout hq' hdelayed hmaxsize hnext ⊢
  subst hout
  have hreceipts : (taken.map deliver).map (·.receipt) = taken.map (·.receipt) :=
    map_receipt_deliver taken
  have hnd : ((taken ++ rest).map (·.receipt)).Nodup :=
    (hq.map _).nodup_iff.1 (nodup_entries h.wf)
  rw [List.map_append] at hnd
  obtain ⟨hndtaken, _, hapart⟩ := List.nodup_append.1 hnd
  have hmark : ∀ {m : Mark}, m ∈ (taken.map deliver).map (fun e => Mark.delivered e.receipt) →
      ∃ e ∈ taken, m = .delivered e.receipt := by
    intro m hm
    rw [List.map_map] at hm
    obtain ⟨e, he, rfl⟩ := List.mem_map.1 hm
    exact ⟨e, he, rfl⟩
  -- the marks of other kinds are as before
  have hsentIff : ∀ r item, Mark.sent r item ∈ s.log ++ (taken.map deliver).map
      (fun e => Mark.delivered e.receipt) ↔ .sent r item ∈ s.log := by simp
  have hackIff : ∀ r, Mark.acked r ∈ s.log ++ (taken.map deliver).map
      (fun e => Mark.delivered e.receipt) ↔ .acked r ∈ s.log := by simp
  refine ⟨hwf, hmaxsize.trans h.maxsize_eq, ?_, h.sorted.sublist hdelayed, fun e he => ?_,
    fun r item hsent => ?_, fun m hm => ?_, ?_⟩
  · have hlength := h.bounded
    rw [hq.length_eq, List.length_append] at hlength
    rw [hq'.length_eq, List.length_append, List.length_map]
    exact hlength
  · rw [hsentIff, hackIff, List.count_append, count_delivered, hreceipts]
    rcases List.mem_append.1 (hq'.mem_iff.1 he) with he | he
    · obtain ⟨x, hx, rfl⟩ := List.mem_map.1 he
      obtain ⟨hsent, hack, hattempts⟩ := h.present x (hq.mem_iff.2 (List.mem_append_left _ hx))
      refine ⟨hsent, hack, ?_⟩
      have hone : (taken.map (·.receipt)).count x.receipt = 1 :=
        List.count_eq_one_of_mem hndtaken (List.mem_map_of_mem hx)
      simp only [deliver, hattempts, hone]
    · obtain ⟨hsent, hack, hattempts⟩ := h.present e (hq.mem_iff.2 (List.mem_append_right _ he))
      refine ⟨hsent, hack, ?_⟩
      have hzero : (taken.map (·.receipt)).count e.receipt = 0 :=
        List.count_eq_zero.2 fun hmem => hapart _ hmem _ (List.mem_map_of_mem he) rfl
      rw [hzero, hattempts, Nat.add_zero]
  · rw [hsentIff] at hsent
    rw [hackIff]
    rcases h.kept r item hsent with hack | ⟨e, he, hr, hi⟩
    · exact .inl hack
    · rcases List.mem_append.1 (hq.mem_iff.1 he) with he | he
      · exact .inr ⟨deliver e, hq'.mem_iff.2 (List.mem_append_left _ (List.mem_map_of_mem he)),
          hr, hi⟩
      · exact .inr ⟨e, hq'.mem_iff.2 (List.mem_append_right _ he), hr, hi⟩
  · rw [hnext]
    rcases List.mem_append.1 hm with hm | hm
    · exact h.drawn m hm
    · obtain ⟨e, he, rfl⟩ := hmark hm
      exact lt_next_of_mem h.wf (hq.mem_iff.2 (List.mem_append_left _ he))
  · refine List.pairwise_append.2 ⟨h.settled, ?_, ?_⟩
    · refine List.pairwise_of_forall_mem_list fun a ha b _ r hack => ?_
      obtain ⟨e, _, rfl⟩ := hmark ha
      cases hack
    · rintro a ha b hb r rfl hdel
      obtain ⟨e, he, rfl⟩ := hmark hb
      rw [Mark.delivered.injEq] at hdel
      refine (h.present e (hq.mem_iff.2 (List.mem_append_left _ he))).2.1 ?_
      rw [hdel]
      exact ha

theorem Inv.ack {maxsize : Nat} {s : Run} (h : Inv maxsize s) (receipt : Uuid) :
    Inv maxsize (step s (.ack receipt)) := by
  simp only [step]
  split
  · rename_i hin
    have hmem := fun e => mem_entries_ack (e := e) h.wf hin
    refine ⟨wf_ack h.wf receipt, h.maxsize_eq, ?_, h.sorted, fun e he => ?_, fun r item hsent => ?_,
      fun m hm => ?_, ?_⟩
    · exact (entries_ack_sublist _ _).length_le.trans h.bounded
    · obtain ⟨he, hne⟩ := (hmem e).1 he
      obtain ⟨hsent, hack, hattempts⟩ := h.present e he
      refine ⟨List.mem_append_left _ hsent, fun hack' => ?_, ?_⟩
      · rcases List.mem_append.1 hack' with hack' | hack'
        · exact hack hack'
        · exact hne (Mark.acked.inj (List.mem_singleton.1 hack'))
      · rw [hattempts, List.count_append]
        simp
    · have hsent' : Mark.sent r item ∈ s.log := by simpa using hsent
      by_cases hr : r = receipt
      · exact .inl (by rw [hr]; simp)
      · rcases h.kept r item hsent' with hack | ⟨e, he, her, hei⟩
        · exact .inl (List.mem_append_left _ hack)
        · exact .inr ⟨e, (hmem e).2 ⟨he, by rw [her]; exact hr⟩, her, hei⟩
    · rcases List.mem_append.1 hm with hm | hm
      · exact h.drawn m hm
      · rw [List.mem_singleton.1 hm]
        exact h.wf.lt_next _ (List.mem_append_right _ hin)
    · refine List.pairwise_append.2 ⟨h.settled, List.pairwise_singleton _ _, ?_⟩
      intro a _ b hb r _ hdel
      rw [List.mem_singleton.1 hb] at hdel
      cases hdel
  · exact h

theorem nackFor_eq (q : QueueState) (receipt : Uuid) (delay now : Micros) :
    (q.nackFor receipt delay now).maxsize = q.maxsize ∧
      (q.nackFor receipt delay now).nextReceipt = q.nextReceipt ∧
      (q.delayed.Pairwise (fun a b => a.1 ≤ b.1) →
        (q.nackFor receipt delay now).delayed.Pairwise fun a b => a.1 ≤ b.1) := by
  simp only [nackFor]
  split
  · exact ⟨rfl, rfl, id⟩
  · refine ⟨rfl, rfl, fun _ => ?_⟩
    have : Std.Total (fun a b : Micros × ReceivedItem Uuid => a.1 ≤ b.1) :=
      ⟨fun a b => le_total a.1 b.1⟩
    have : IsTrans (Micros × ReceivedItem Uuid) (fun a b => a.1 ≤ b.1) :=
      ⟨fun _ _ _ hab hbc => le_trans hab hbc⟩
    exact List.pairwise_insertionSort _ _

theorem wf_nackFor {q : QueueState} (hq : q.Wf) (receipt : Uuid) (delay now : Micros) :
    (q.nackFor receipt delay now).Wf := by
  refine wf_of_perm hq (nackFor_eq q receipt delay now).2.1 ?_
  rw [← map_receipt_entries, ← map_receipt_entries]
  exact (entries_nackFor q receipt delay now).map _

theorem Inv.nack {maxsize : Nat} {s : Run} (h : Inv maxsize s) (receipt : Uuid)
    (delay now : Micros) : Inv maxsize (step s (.nack receipt delay now)) := by
  have hperm := entries_nackFor s.queue receipt delay now
  obtain ⟨hmaxsize, hnext, hsorted⟩ := nackFor_eq s.queue receipt delay now
  refine ⟨wf_nackFor h.wf receipt delay now, hmaxsize.trans h.maxsize_eq, ?_, hsorted h.sorted,
    fun e he => h.present e (hperm.mem_iff.1 he), fun r item hsent => ?_, fun m hm => ?_, h.settled⟩
  · exact hperm.length_eq.trans_le h.bounded
  · rcases h.kept r item hsent with hack | ⟨e, he, hr⟩
    · exact .inl hack
    · exact .inr ⟨e, hperm.mem_iff.2 he, hr⟩
  · exact (h.drawn m hm).trans_le hnext.symm.le

theorem Inv.step {maxsize : Nat} {s : Run} (h : Inv maxsize s) (c : Call) :
    Inv maxsize (step s c) := by
  cases c with
  | send items => exact h.send items
  | receive maxItems clock => exact h.receive maxItems clock
  | ack receipt => exact h.ack receipt
  | nack receipt delay now => exact h.nack receipt delay now

/-! ### What is due -/

/-- In a list sorted by due time, what is due stands first. -/
theorem split_due {l : List (Micros × ReceivedItem Uuid)} (h : l.Pairwise fun a b => a.1 ≤ b.1)
    (t : Micros) : l.takeWhile (due t) = l.filter (due t) ∧
      l.dropWhile (due t) = l.filter fun e => !due t e := by
  induction l with
  | nil => exact ⟨rfl, rfl⟩
  | cons a l ih =>
    obtain ⟨hhead, htail⟩ := List.pairwise_cons.1 h
    by_cases ha : due t a = true
    · obtain ⟨htake, hdrop⟩ := ih htail
      simp [ha, htake, hdrop]
    · have hlate : ∀ b ∈ l, due t b = false := by
        intro b hb
        have hle := hhead b hb
        simp only [due, decide_eq_true_eq, decide_eq_false_iff_not] at ha ⊢
        exact fun hdue => ha (hle.trans hdue)
      have hnone : l.filter (due t) = [] := List.filter_eq_nil_iff.2 fun b hb => by simp [hlate b hb]
      have hall : l.filter (fun e => !due t e) = l :=
        List.filter_eq_self.2 fun b hb => by simp [hlate b hb]
      simp [ha, hnone, hall]

theorem due_mono {t t' : Micros} (h : t ≤ t') {e : Micros × ReceivedItem Uuid}
    (he : due t e = true) : due t' e = true := by
  simp only [due, decide_eq_true_eq] at he ⊢
  exact he.trans h

/-- What is due at `t'` is what was due at `t` and what has become due since, in this order. -/
theorem filter_due_split {l : List (Micros × ReceivedItem Uuid)}
    (h : l.Pairwise fun a b => a.1 ≤ b.1) {t t' : Micros} (ht : t ≤ t') :
    l.filter (due t') = l.filter (due t) ++ (l.filter fun e => !due t e).filter (due t') := by
  obtain ⟨htake, hdrop⟩ := split_due h t
  conv => lhs; rw [← List.takeWhile_append_dropWhile (p := due t) (l := l)]
  rw [List.filter_append, hdrop, htake, List.filter_eq_self.2]
  intro e he
  exact due_mono ht (List.mem_filter.1 he).2

/-- One look at the queue. -/
theorem pass_spec {q : QueueState} (h : q.delayed.Pairwise fun a b => a.1 ≤ b.1) (now : Micros)
    (maxItems : Nat) :
    let ready := q.ready ++ (q.delayed.filter (due now)).map (·.2)
    let p := (q.promoteDue now).takeReady maxItems
    p.2 = (ready.take maxItems).map deliver ∧ p.1.ready = ready.drop maxItems ∧
      p.1.delayed = q.delayed.filter fun e => !due now e := by
  obtain ⟨htake, hdrop⟩ := split_due h now
  simp only [promoteDue, takeReady, htake, hdrop, and_self]

/-- The looks before the last one found nothing to hand out. -/
theorem receive_prompt (clock : List Micros) : ∀ {q : QueueState} (now : Micros) (maxItems : Nat),
    (q.delayed.Pairwise fun a b => a.1 ≤ b.1) → (now :: clock).Pairwise (· ≤ ·) →
    ∃ t ∈ now :: clock,
      let ready := q.ready ++ (q.delayed.filter (due t)).map (·.2)
      (q.receive maxItems (now :: clock)).2 = (ready.take maxItems).map deliver ∧
        (q.receive maxItems (now :: clock)).1.ready = ready.drop maxItems ∧
        (q.receive maxItems (now :: clock)).1.delayed = q.delayed.filter fun e => !due t e := by
  induction clock with
  | nil =>
    intro q now maxItems h _
    refine ⟨now, List.mem_singleton_self now, ?_⟩
    obtain ⟨hout, hready, hdelayed⟩ := pass_spec h now maxItems
    simp only [QueueState.receive]
    split
    · rename_i hnone
      rw [List.isEmpty_iff.1 hnone] at hout
      exact ⟨hout, hready, hdelayed⟩
    · exact ⟨hout, hready, hdelayed⟩
  | cons later clock ih =>
    intro q now maxItems h hclock
    obtain ⟨hout, hready, hdelayed⟩ := pass_spec h now maxItems
    obtain ⟨hnow, hrest⟩ := List.pairwise_cons.1 hclock
    rw [QueueState.receive]
    simp only
    split
    · rename_i hnone
      generalize (q.promoteDue now).takeReady maxItems = p at hout hready hdelayed hnone
      rw [List.isEmpty_iff.1 hnone] at hout
      have hsorted : p.1.delayed.Pairwise fun a b => a.1 ≤ b.1 := by
        rw [hdelayed]
        exact h.sublist List.filter_sublist
      obtain ⟨t, ht, hspec⟩ := ih (q := p.1) later maxItems hsorted hrest
      refine ⟨t, List.mem_cons_of_mem _ ht, ?_⟩
      have hle := hnow t ht
      -- nothing was taken, so the promoted items are still ready
      have hkept : p.1.ready = q.ready ++ (q.delayed.filter (due now)).map (·.2) := by
        rw [hready]
        rcases List.take_eq_nil_iff.1 (List.map_eq_nil_iff.1 hout.symm) with hzero | hnil
        · rw [hzero, List.drop_zero]
        · rw [hnil, List.drop_nil]
      have hall : p.1.ready ++ (p.1.delayed.filter (due t)).map (·.2) =
          q.ready ++ (q.delayed.filter (due t)).map (·.2) := by
        rw [hkept, hdelayed, List.append_assoc, ← List.map_append, ← filter_due_split h hle]
      have hlate : (p.1.delayed.filter fun e => !due t e) =
          q.delayed.filter fun e => !due t e := by
        rw [hdelayed, List.filter_filter]
        refine List.filter_congr fun e _ => ?_
        cases hdue : due now e with
        | false => simp
        | true => simp [due_mono hle hdue]
      simp only [hall, hlate] at hspec
      exact hspec
    · exact ⟨now, List.mem_cons_self, hout, hready, hdelayed⟩

theorem Inv.prompt {maxsize : Nat} {s : Run} (h : Inv maxsize s) {c : Call}
    (hc : c.readings.Pairwise (· ≤ ·)) : Prompt s c := by
  cases c with
  | receive maxItems clock =>
    cases clock with
    | nil => exact trivial
    | cons now clock => exact receive_prompt clock now maxItems h.sorted hc
  | send items => exact trivial
  | ack receipt => exact trivial
  | nack receipt delay now => exact trivial

/-- Over any sequence of calls and any clock that does not go back, the queue keeps every item that
is not acked in one place, hands no acked item out again, counts the deliveries, stays within its
bound, and lets the delayed items through when they are due. -/
theorem conserves (maxsize : Nat) (calls : List Call)
    (hclock : (calls.flatMap Call.readings).Pairwise (· ≤ ·)) :
    Always step (Conserved maxsize) (start maxsize) calls ∧
      Along step Prompt (start maxsize) calls := by
  have hcalls : ∀ c ∈ calls, c.readings.Pairwise (· ≤ ·) := by
    intro c hc
    obtain ⟨pre, post, rfl⟩ := List.append_of_mem hc
    rw [List.flatMap_append, List.flatMap_cons] at hclock
    exact (List.pairwise_append.1 (List.pairwise_append.1 hclock).2.1).1
  have hmonotone : Along step (fun _ c => c.readings.Pairwise (· ≤ ·)) (start maxsize) calls :=
    Along.of_prefix fun pre c post he => hcalls c (by rw [he]; simp)
  refine ⟨?_, ?_⟩
  · exact (Along.always (fun _ c h _ => h.step c) (inv_start maxsize) hmonotone).mono
      fun _ h => h.conserved
  · exact Along.imp_of_inv (fun _ c h => h.step c) (fun _ _ h hc => h.prompt hc)
      (inv_start maxsize) hmonotone

def eastItem : WorkItem where
  jobId := 0
  awsAccountId := "123456789012"
  region := "eu-west-1"
  roleArn := none
  externalId := none
  name := none
  resourceTypes := none
  force := false
  dryRun := false

/-- An item is sent, handed out, given back for five microseconds, handed out again and acked. -/
def retried : List Call :=
  [.send [eastItem], .receive 1 [0], .nack 0 5 10, .receive 1 [12, 15], .ack 0, .receive 1 [20]]

theorem retried_conserved : Always step (Conserved 1) (start 1) retried ∧
    Along step Prompt (start 1) retried := conserves 1 retried (by decide)

end QueueRun

end Constat
