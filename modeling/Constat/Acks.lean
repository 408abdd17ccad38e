import Constat.Lifecycle
import Constat.UuidText

/-!
# Acks

The operator's acknowledgements of resource gaps over time. A rule run copies the acknowledgements
of the rows it is about to delete to the rows it writes, by stable id; nothing else remembers them.

* `State` — the store, and beside it what the operator's acknowledgements say: the last one given
  to a rule's gap on a resource, forgotten when a run conclusively closes that gap.
* `Faithful` — every stored insight carries the acknowledgement remembered for it, and no other.
* `acks_survive` — every state of a history is faithful when each run of a rule decides the
  resources whose insights are acknowledged.
-/

namespace Constat

open Runner

namespace Acks

/-! ## Histories -/

/-- What one tenant's collections and ingests may make of the store between two rule runs. -/
structure Inventory where
  store : Store
  ids : ∀ x ∈ store.resources, x.id < Uuid.bound

inductive Event where
  | inventory (inv : Inventory)
  | ruleRun (rule : ResourceRule) (env : RunEnv)
  | ack (insightId : Uuid) (status : AckStatus) (ackBy : Option String) (ackAt : Option Micros)
      (now : Micros)

def storeStep (fp : Arith) (t : Store) : Event → Store
  | .inventory inv => { inv.store with insights := t.insights }
  | .ruleRun rule env => ruleStep fp rule env t
  | .ack insightId status ackBy ackAt now =>
    (Insights.updateAck (Session.begin t) insightId status ackBy ackAt now).1.commit.close

/-- The acknowledgement in force for a rule's gap on a resource. -/
abbrev Memory := String → Uuid → Option Insights.Ack

instance (t : Store) (rule : ResourceRule) (env : RunEnv) (x : Resource) :
    Decidable (Lifecycle.Closed t rule env x) :=
  match h : evaluateResource t x rule env (factsOf t x.id) with
  | .ok out => decidable_of_iff (out = ([], [])) (by simp [Lifecycle.Closed, h])
  | .error e => .isFalse (by simp [Lifecycle.Closed, h])

/-- The run closed the gap of the rule on the resource: evaluated, conclusively, and not found. -/
def Closes (t : Store) (rule : ResourceRule) (env : RunEnv) (id : Uuid) : Prop :=
  ∃ x ∈ t.resources, x.id = id ∧ Lifecycle.Closed t rule env x

instance (t : Store) (rule : ResourceRule) (env : RunEnv) (id : Uuid) :
    Decidable (Closes t rule env id) :=
  inferInstanceAs (Decidable (∃ x ∈ t.resources, x.id = id ∧ Lifecycle.Closed t rule env x))

def remember (t : Store) (memory : Memory) : Event → Memory
  | .inventory _ => memory
  | .ruleRun rule env => fun name id =>
    if name = rule.name ∧ Closes t rule env id then none else memory name id
  | .ack insightId status ackBy ackAt now => fun name id =>
    match t.insights.get? insightId with
    | none => memory name id
    | some row =>
      if row.ruleName = name ∧ row.resourceId = some id then
        some ⟨status, some (ackAt.getD now), ackBy⟩
      else memory name id

structure State where
  store : Store
  memory : Memory

def step (fp : Arith) (s : State) (e : Event) : State where
  store := storeStep fp s.store e
  memory := remember s.store s.memory e

/-- No rule has run yet. -/
def start (inv : Inventory) : State where
  store := { inv.store with insights := .empty }
  memory := fun _ _ => none

/-- Every stored insight about a resource carries the acknowledgement in force for it. -/
def Faithful (s : State) : Prop :=
  ∀ r ∈ s.store.insights, ∀ id ∈ r.resourceId, Insights.ackOf r = s.memory r.ruleName id

/-- The scope of the resource is proven fresh, it has facts, and they decide the rule. -/
def Conclusive (t : Store) (rule : ResourceRule) (env : RunEnv) (x : Resource) : Prop :=
  isScopeProven t x rule.source env.scopeMaxAge env.now = true ∧ factsOf t x.id ≠ [] ∧
    ∃ result, rule.evaluate x.id (factsOf t x.id) env.today = .ok result ∧
      result.inconclusiveReasons = []

/-- A run of a rule is decisive when it decides every resource whose insight is acknowledged. -/
def Decisive (s : State) : Event → Prop
  | .ruleRun rule env => ∀ r ∈ Insights.ofRule s.store rule.name, Insights.ackOf r ≠ none →
    ∀ id ∈ r.resourceId, ∃ x ∈ s.store.resources, x.id = id ∧ Conclusive s.store rule env x
  | _ => True

/-! ## Stable ids of resources -/

theorem stableIdOf_resource (name : String) (id : Uuid) (account : Option Uuid)
    (payload : List (String × Json)) : Insights.stableIdOf name (some id) account payload =
      "resource:" ++ name ++ ":" ++ Uuid.text id := rfl

theorem ackSnapshotKey_resource {r : InsightRow} {id : Uuid} (h : r.resourceId = some id) :
    Insights.ackSnapshotKey r = "resource:" ++ r.ruleName ++ ":" ++ Uuid.text id := by
  rw [Insights.ackSnapshotKey, h, stableIdOf_resource]

/-- Under one rule, the stable id of a resource's gap names the resource. -/
theorem resource_of_key {name : String} {a b : Uuid} (ha : a < Uuid.bound) (hb : b < Uuid.bound)
    (h : "resource:" ++ name ++ ":" ++ Uuid.text a = "resource:" ++ name ++ ":" ++ Uuid.text b) :
    a = b :=
  Uuid.text_inj ha hb ((String.append_right_inj _).1 h)

/-! ## The snapshot -/

/-- The acknowledged rows of a rule, each under its stable id. -/
def acked (t : Store) (name : String) : List (String × Insights.Ack) :=
  (Insights.ofRule t name).filterMap fun r =>
    (Insights.ackOf r).map fun ack => (Insights.ackSnapshotKey r, ack)

theorem snapshotAcks_eq (t : Store) (name : String) : Insights.snapshotAcks t name =
    (acked t name).foldl (fun d p => d.set p.1 p.2) .empty := by
  rw [Insights.snapshotAcks, acked, List.foldl_filterMap]
  congr 1
  funext d r
  cases Insights.ackOf r <;> rfl

theorem get?_snapshot_some {t : Store} {name key : String} {ack : Insights.Ack}
    (h : (Insights.snapshotAcks t name).get? key = some ack) :
    ∃ r ∈ Insights.ofRule t name, Insights.ackSnapshotKey r = key ∧
      Insights.ackOf r = some ack := by
  rw [snapshotAcks_eq] at h
  rcases Dict.get?_foldl_set_some h with ⟨p, hp, hkey, hack⟩ | h
  · obtain ⟨r, hr, he⟩ := List.mem_filterMap.1 hp
    obtain ⟨ack', hr', rfl⟩ := Option.map_eq_some_iff.1 he
    exact ⟨r, hr, hkey, hr'.trans (congrArg some hack)⟩
  · cases h

theorem get?_snapshot_none {t : Store} {name : String} {r : InsightRow}
    (hr : r ∈ Insights.ofRule t name)
    (h : (Insights.snapshotAcks t name).get? (Insights.ackSnapshotKey r) = none) :
    Insights.ackOf r = none := by
  cases hack : Insights.ackOf r with
  | none => rfl
  | some ack =>
    have hmem : (Insights.ackSnapshotKey r, ack) ∈ acked t name :=
      List.mem_filterMap.2 ⟨r, hr, by rw [hack]; rfl⟩
    have hsome := (Dict.get?_foldl_set_isSome Prod.fst Prod.snd (acked t name) .empty
      (Insights.ackSnapshotKey r)).2 (.inl ⟨_, hmem, rfl⟩)
    rw [← snapshotAcks_eq, h] at hsome
    cases hsome

/-! ## The invariant -/

/-- The gap a row is about. -/
def gapOf (r : InsightRow) : String × Option Uuid := (r.ruleName, r.resourceId)

/-- At most one insight for each rule and resource, each as acknowledged as it is remembered, and
nothing remembered of a gap that is not stored. -/
structure Kept (s : State) : Prop where
  faithful : Faithful s
  held : ∀ name id, s.memory name id ≠ none → ∃ r ∈ s.store.insights, gapOf r = (name, some id)
  subjects : ∀ r ∈ s.store.insights, ∃ id ∈ r.resourceId, id < Uuid.bound
  single : (s.store.insights.rows.map gapOf).Nodup
  ids : ∀ x ∈ s.store.resources, x.id < Uuid.bound

theorem kept_start (inv : Inventory) : Kept (start inv) where
  faithful := fun r hr => by cases hr
  held := fun _ _ h => absurd rfl h
  subjects := fun r hr => by cases hr
  single := List.nodup_nil
  ids := inv.ids

theorem kept_inventory {s : State} (h : Kept s) (fp : Arith) (inv : Inventory) :
    Kept (step fp s (.inventory inv)) where
  faithful := h.faithful
  held := h.held
  subjects := h.subjects
  single := h.single
  ids := inv.ids

/-! ### An acknowledgement -/

theorem eq_of_gapOf {s : State} (h : Kept s) {r r' : InsightRow} (hr : r ∈ s.store.insights)
    (hr' : r' ∈ s.store.insights) (hgap : gapOf r = gapOf r') : r = r' :=
  List.inj_on_of_nodup_map h.single hr hr' hgap

theorem kept_ack {s : State} (h : Kept s) (fp : Arith) (insightId : Uuid) (status : AckStatus)
    (ackBy : Option String) (ackAt : Option Micros) (now : Micros) :
    Kept (step fp s (.ack insightId status ackBy ackAt now)) := by
  cases hrow : s.store.insights.get? insightId with
  | none =>
    have hsame : step fp s (.ack insightId status ackBy ackAt now) = s := by
      simp [step, storeStep, remember, Insights.updateAck, hrow, Session.close]
    rw [hsame]
    exact h
  | some row =>
    let row' := Insights.withAck row ⟨status, some (ackAt.getD now), ackBy⟩
    obtain ⟨hmem, _⟩ := Table.get?_eq_some.1 hrow
    have hstore : (step fp s (.ack insightId status ackBy ackAt now)).store =
        { s.store with insights := s.store.insights.put row' } := by
      simp [step, storeStep, Insights.updateAck, hrow, Session.close, applyWrite, row']
    have hmemory : (step fp s (.ack insightId status ackBy ackAt now)).memory = fun name id =>
        if row.ruleName = name ∧ row.resourceId = some id then Insights.ackOf row'
        else s.memory name id := by
      simp [step, remember, hrow, row', Insights.ackOf, Insights.withAck]
    have hgap : gapOf row' = gapOf row := rfl
    have hkept : ∀ {r : InsightRow}, r ∈ s.store.insights.put row' →
        r = row' ∨ r ∈ s.store.insights ∧ r.id ≠ row.id := fun hr => Table.mem_put.1 hr
    refine ⟨?_, ?_, ?_, ?_, ?_⟩ <;> simp only [Faithful, hstore, hmemory]
    · intro r hr id hid
      rcases hkept hr with rfl | ⟨hr, hne⟩
      · rw [if_pos ⟨rfl, hid⟩]
      · -- another row is about another gap
        have hother : ¬ (row.ruleName = r.ruleName ∧ row.resourceId = some id) := by
          rintro ⟨hname, hres⟩
          refine hne (congrArg InsightRow.id (eq_of_gapOf h hr hmem ?_))
          rw [gapOf, gapOf, hname, hres, hid]
        rw [if_neg hother]
        exact h.faithful r hr id hid
    · intro name id hm
      by_cases hrowgap : row.ruleName = name ∧ row.resourceId = some id
      · exact ⟨row', Table.mem_put_self _ _, by rw [hgap, gapOf, hrowgap.1, hrowgap.2]⟩
      · rw [if_neg hrowgap] at hm
        obtain ⟨r, hr, hrgap⟩ := h.held name id hm
        by_cases hid : r.id = row.id
        · refine ⟨row', Table.mem_put_self _ _, ?_⟩
          rw [hgap, ← hrgap, Table.eq_of_key hr hmem hid]
        · exact ⟨r, Table.mem_put.2 (.inr ⟨hr, hid⟩), hrgap⟩
    · intro r hr
      rcases hkept hr with rfl | ⟨hr, _⟩
      · exact h.subjects row hmem
      · exact h.subjects r hr
    · have hput : (s.store.insights.put row').rows.map gapOf = s.store.insights.rows.map gapOf :=
        Table.map_put hmem rfl hgap.symm
      rw [hput]
      exact h.single
    · exact h.ids

/-! ### A rule run -/

theorem closes_iff {t : Store} {rule : ResourceRule} {env : RunEnv} {x : Resource}
    (hx : x ∈ t.resources) : Closes t rule env x.id ↔ Lifecycle.Closed t rule env x := by
  constructor
  · rintro ⟨y, hy, hid, hclosed⟩
    rwa [Table.eq_of_key hy hx hid] at hclosed
  · exact fun hclosed => ⟨x, hx, rfl, hclosed⟩

theorem closed_of_conclusive {t : Store} {rule : ResourceRule} {env : RunEnv} {x : Resource}
    (h : Conclusive t rule env x) (hnone : emitted t rule env x = []) :
    Lifecycle.Closed t rule env x := by
  obtain ⟨hscope, hfacts, result, hresult, hreasons⟩ := h
  have heval := evaluateResource_of_result hscope hfacts hresult hreasons
  rw [emitted, heval] at hnone
  rw [Lifecycle.Closed, heval, show result.insights = [] from hnone]

/-- The context of an insight is in its payload. -/
theorem contextualized_payload (fp : Arith) (t : Store) (name : String) (r : InsightRow) :
    ∃ payload, (Reconcile.contextualized fp t name r).getD r = { r with payload := payload } := by
  unfold Reconcile.contextualized
  cases InsightEvents.monthlyCost fp name r.payload with
  | none => exact ⟨r.payload, rfl⟩
  | some cost =>
    cases r.resourceId.bind t.resources.get? with
    | none => exact ⟨r.payload, rfl⟩
    | some x =>
      cases hc : Reconcile.context fp (Reconcile.latestPeriodLines t x.nativeId
        (Reconcile.focusService name)) with
      | none => exact ⟨r.payload, by simp [hc]⟩
      | some fields => exact ⟨updateFields r.payload fields, by simp [hc]⟩

/-- A fresh row gets the acknowledgement that the snapshot has under its stable id. -/
theorem ackOf_carried (snapshot : Dict String Insights.Ack) {r : InsightRow}
    (hfresh : r.ackStatus = none) : Insights.ackOf ((Insights.carried snapshot r).getD r) =
      snapshot.get? (Insights.ackSnapshotKey r) := by
  rw [Insights.carried, if_pos hfresh]
  cases snapshot.get? (Insights.ackSnapshotKey r) with
  | none => simp [Insights.ackOf, hfresh]
  | some ack => simp [Insights.ackOf, Insights.withAck]

/-- A fresh row is finished with the acknowledgement the snapshot has for its gap. -/
theorem ackOf_finishedRow (fp : Arith) (name : String) (t : Store) {r : InsightRow} {id : Uuid}
    (hfresh : r.ackStatus = none) (hid : r.resourceId = some id) :
    Insights.ackOf (finishedRow fp name t r) = (Insights.snapshotAcks t name).get?
      ("resource:" ++ r.ruleName ++ ":" ++ Uuid.text id) := by
  obtain ⟨payload, hrow⟩ := contextualized_payload fp t name r
  rw [finishedRow, hrow]
  let r' : InsightRow := { r with payload := payload }
  have hkey : Insights.ackSnapshotKey r' = _ := ackSnapshotKey_resource hid
  exact (ackOf_carried (Insights.snapshotAcks t name) (r := r') hfresh).trans (congrArg _ hkey)

/-- The snapshot of a rule has, for a resource's gap, what is remembered of it. -/
theorem get?_snapshot {s : State} (h : Kept s) (name : String) {id : Uuid}
    (hid : id < Uuid.bound) : (Insights.snapshotAcks s.store name).get?
      ("resource:" ++ name ++ ":" ++ Uuid.text id) = s.memory name id := by
  cases hsnap : (Insights.snapshotAcks s.store name).get?
      ("resource:" ++ name ++ ":" ++ Uuid.text id) with
  | some ack =>
    obtain ⟨r, hr, hkey, hack⟩ := get?_snapshot_some hsnap
    obtain ⟨hmem, hname⟩ := List.mem_filter.1 hr
    obtain ⟨id', hid', hlt⟩ := h.subjects r hmem
    have hrule : r.ruleName = name := of_decide_eq_true hname
    rw [ackSnapshotKey_resource hid', hrule] at hkey
    rw [← hack, ← resource_of_key hlt hid hkey, h.faithful r hmem id' hid', hrule]
  | none =>
    by_contra hm
    obtain ⟨r, hr, hgap⟩ := h.held name id fun hn => hm hn.symm
    obtain ⟨hname, hres⟩ := Prod.mk.inj hgap
    have hnone := get?_snapshot_none (List.mem_filter.2 ⟨hr, decide_eq_true hname⟩)
      (by rw [ackSnapshotKey_resource hres, hname, hsnap])
    rw [h.faithful r hr id hres, hname] at hnone
    exact hm hnone.symm

/-- A row that a run leaves is one of another rule, or finishes what the run emits for some
resource. -/
theorem mem_after {fp : Arith} {rule : ResourceRule} {env : RunEnv} {t t' : Store}
    (h : RunRows fp rule env t t') {r : InsightRow} (hr : r ∈ t'.insights) :
    (r ∈ t.insights ∧ r.ruleName ≠ rule.name) ∨ ∃ x ∈ t.resources, ∃ i ∈ emitted t rule env x,
      ∃ id, r = finishedRow fp rule.name t (insightRow id i env.now) := by
  rw [Table.mem_def, h.insights, List.mem_append] at hr
  rcases hr with hr | hr
  · obtain ⟨hr, hname⟩ := List.mem_filter.1 hr
    exact .inl ⟨hr, of_decide_eq_true hname⟩
  · obtain ⟨r₀, hr₀, rfl⟩ := List.mem_map.1 hr
    obtain ⟨p, hp, rfl⟩ := List.mem_map.1 hr₀
    obtain ⟨x, hx, hi⟩ := List.mem_flatMap.1 (List.fst_mem_of_mem_zipIdx hp)
    exact .inr ⟨x, hx, p.1, hi, p.2, rfl⟩

theorem gapOf_finishedRow (fp : Arith) (name : String) (t : Store) (r : InsightRow) :
    gapOf (finishedRow fp name t r) = gapOf r := by
  have hhead := head_finishedRow fp name t r
  exact Prod.ext (congrArg (fun h : Head => h.1) hhead) (congrArg (fun h : Head => h.2.1) hhead)

/-- The gaps a run emits are the gaps of different resources. -/
theorem nodup_emitted (t : Store) (rule : ResourceRule) (env : RunEnv) :
    ((emittedAll t rule env).map fun i => (i.ruleName, i.resourceId)).Nodup := by
  have hlist : ∀ rs : List Resource, (rs.map Resource.id).Nodup →
      ((rs.flatMap (emitted t rule env)).map fun i => (i.ruleName, i.resourceId)).Nodup := by
    intro rs
    induction rs with
    | nil => exact fun _ => List.nodup_nil
    | cons x rs ih =>
      intro hids
      rw [List.map_cons, List.nodup_cons] at hids
      rw [List.flatMap_cons, List.map_append, List.nodup_append]
      refine ⟨?_, ih hids.2, ?_⟩
      · match hx : emitted t rule env x, emitted_length_le t rule env x with
        | [], _ => exact List.nodup_nil
        | [i], _ => exact List.nodup_singleton _
      · intro a ha b hb hab
        obtain ⟨i, hi, rfl⟩ := List.mem_map.1 ha
        obtain ⟨j, hj, rfl⟩ := List.mem_map.1 hb
        obtain ⟨y, hy, hj⟩ := List.mem_flatMap.1 hj
        have hsame := (Prod.mk.inj hab).2
        rw [(mem_emitted hi).2, (mem_emitted hj).2] at hsame
        rw [Option.some.inj hsame] at hids
        exact hids.1 (List.mem_map_of_mem hy)
  exact hlist t.resources.rows t.resources.nodup

section

variable {s : State} {fp : Arith} {rule : ResourceRule} {env : RunEnv}

theorem memory_ruleRun (name : String) (id : Uuid) :
    (step fp s (.ruleRun rule env)).memory name id =
      if name = rule.name ∧ Closes s.store rule env id then none else s.memory name id := rfl

/-- A row after the run has the acknowledgement that is remembered of its gap. -/
theorem faithful_ruleRun (h : Kept s) : Faithful (step fp s (.ruleRun rule env)) := by
  intro r hr id hid
  rw [memory_ruleRun]
  rcases mem_after (ruleStep_rows fp rule env s.store) hr with ⟨hr, hname⟩ | ⟨x, hx, i, hi, n, rfl⟩
  · rw [if_neg fun hc => hname hc.1]
    exact h.faithful r hr id hid
  · obtain ⟨hrule, hres⟩ := mem_emitted hi
    have hgap := gapOf_finishedRow fp rule.name s.store (insightRow n i env.now)
    obtain ⟨hname', hres'⟩ := Prod.mk.inj hgap
    have hidx : id = x.id := by
      have hres'' := hres'.trans hres
      rw [hres''] at hid
      exact (Option.some.inj hid).symm
    subst hidx
    have hopen : ¬ Closes s.store rule env x.id := fun hc => by
      rw [Lifecycle.emitted_of_closed ((closes_iff hx).1 hc)] at hi
      cases hi
    have hname : (finishedRow fp rule.name s.store (insightRow n i env.now)).ruleName =
        rule.name := hname'.trans hrule
    have hrow : (insightRow n i env.now).ruleName = rule.name := hrule
    rw [if_neg fun hc => hopen hc.2, hname, ackOf_finishedRow fp rule.name s.store rfl hres,
      hrow, get?_snapshot h rule.name (h.ids x hx)]

/-- What is still remembered has a row. -/
theorem held_ruleRun (h : Kept s) (hdecisive : Decisive s (.ruleRun rule env)) (name : String)
    (id : Uuid) (hm : (step fp s (.ruleRun rule env)).memory name id ≠ none) :
    ∃ r ∈ (step fp s (.ruleRun rule env)).store.insights, gapOf r = (name, some id) := by
  rw [memory_ruleRun] at hm
  by_cases hclosed : name = rule.name ∧ Closes s.store rule env id
  · rw [if_pos hclosed] at hm
    exact absurd rfl hm
  · rw [if_neg hclosed] at hm
    obtain ⟨r, hr, hgap⟩ := h.held name id hm
    obtain ⟨hname, hres⟩ := Prod.mk.inj hgap
    by_cases hrule : name = rule.name
    · -- the run decides the acknowledged gap, and does not close it
      have hack : Insights.ackOf r ≠ none := by
        rw [h.faithful r hr id hres, hname]
        exact hm
      have hmem : r ∈ Insights.ofRule s.store rule.name :=
        List.mem_filter.2 ⟨hr, decide_eq_true (hname.trans hrule)⟩
      obtain ⟨x, hx, rfl, hconclusive⟩ := hdecisive r hmem hack id hres
      have hne : emitted s.store rule env x ≠ [] := fun hnone =>
        hclosed ⟨hrule, x, hx, rfl, closed_of_conclusive hconclusive hnone⟩
      obtain ⟨i, hi⟩ := List.exists_mem_of_ne_nil _ hne
      obtain ⟨r', hr', hid'⟩ := ((ruleStep_effect fp rule env s.store).about_iff hx).2 ⟨i, hi⟩
      obtain ⟨hmem', hname'⟩ := List.mem_filter.1 hr'
      have hrule' : r'.ruleName = rule.name := of_decide_eq_true hname'
      exact ⟨r', hmem', by rw [gapOf, hrule', hid', hrule]⟩
    · refine ⟨r, ?_, hgap⟩
      have hother : decide (r.ruleName ≠ rule.name) = true :=
        decide_eq_true fun he => hrule (hname.symm.trans he)
      exact Table.mem_def.2 ((ruleStep_rows fp rule env s.store).insights ▸
        List.mem_append_left _ (List.mem_filter.2 ⟨hr, hother⟩))

theorem single_ruleRun (h : Kept s) :
    ((step fp s (.ruleRun rule env)).store.insights.rows.map gapOf).Nodup := by
  have hnew : ((insightRows s.store.insights.next (emittedAll s.store rule env) env.now).map
      (finishedRow fp rule.name s.store)).map gapOf =
      (emittedAll s.store rule env).map fun i => (i.ruleName, i.resourceId) := by
    rw [List.map_map]
    exact map_insightRows _ _ env.now
      (fun n i => gapOf_finishedRow fp rule.name s.store (insightRow n i env.now)) _ _
  have hall : (step fp s (.ruleRun rule env)).store.insights.rows = _ :=
    (ruleStep_rows fp rule env s.store).insights
  rw [hall, List.map_append, hnew, List.nodup_append]
  refine ⟨(List.filter_sublist.map gapOf).nodup h.single, nodup_emitted s.store rule env, ?_⟩
  intro a ha b hb hab
  obtain ⟨r, hr, rfl⟩ := List.mem_map.1 ha
  obtain ⟨i, hi, rfl⟩ := List.mem_map.1 hb
  refine of_decide_eq_true (List.mem_filter.1 hr).2 ?_
  exact ((Prod.mk.inj hab).1).trans (ruleName_of_mem_emittedAll hi)

end

theorem kept_ruleRun {s : State} (h : Kept s) (fp : Arith) {rule : ResourceRule} {env : RunEnv}
    (hdecisive : Decisive s (.ruleRun rule env)) : Kept (step fp s (.ruleRun rule env)) := by
  refine ⟨faithful_ruleRun h, held_ruleRun h hdecisive, ?_, single_ruleRun h, ?_⟩
  · intro r hr
    rcases mem_after (ruleStep_rows fp rule env s.store) hr with ⟨hr, _⟩ | ⟨x, hx, i, hi, n, rfl⟩
    · exact h.subjects r hr
    · have hgap := gapOf_finishedRow fp rule.name s.store (insightRow n i env.now)
      exact ⟨x.id, (Prod.mk.inj hgap).2.trans (mem_emitted hi).2, h.ids x hx⟩
  · intro x hx
    have hsame : (step fp s (.ruleRun rule env)).store.resources = s.store.resources :=
      (ruleStep_effect fp rule env s.store).inventory.resources
    rw [hsame] at hx
    exact h.ids x hx

/-! ## Histories of acknowledgements -/

theorem kept_step (fp : Arith) (s : State) (e : Event) (h : Kept s) (hdecisive : Decisive s e) :
    Kept (step fp s e) := by
  cases e with
  | inventory inv => exact kept_inventory h fp inv
  | ruleRun rule env => exact kept_ruleRun h fp hdecisive
  | ack insightId status ackBy ackAt now => exact kept_ack h fp insightId status ackBy ackAt now

/-- Along every history whose rule runs are decisive, every stored insight carries the operator's
acknowledgement of its gap: it survives until a run closes the gap, and moves to no other. -/
theorem acks_survive (fp : Arith) (inv : Inventory) (es : List Event)
    (h : Trace.Along (step fp) Decisive (start inv) es) :
    Trace.Always (step fp) Faithful (start inv) es :=
  (Trace.Along.always (kept_step fp) (kept_start inv) h).mono fun _ hkept => hkept.faithful

instance {e : Except PyError RuleResult} {p : RuleResult → Prop} [DecidablePred p] :
    Decidable (∃ result, e = .ok result ∧ p result) :=
  match e with
  | .ok result => decidable_of_iff (p result) (by simp)
  | .error _ => .isFalse (by simp)

instance (t : Store) (rule : ResourceRule) (env : RunEnv) (x : Resource) :
    Decidable (Conclusive t rule env x) :=
  inferInstanceAs (Decidable (_ ∧ _ ∧ ∃ _, _ ∧ _))

instance (s : State) (e : Event) : Decidable (Decisive s e) :=
  match e with
  | .inventory _ => inferInstanceAs (Decidable True)
  | .ack _ _ _ _ _ => inferInstanceAs (Decidable True)
  | .ruleRun rule env => inferInstanceAs (Decidable (∀ r ∈ Insights.ofRule s.store rule.name,
    Insights.ackOf r ≠ none → ∀ id ∈ r.resourceId,
      ∃ x ∈ s.store.resources, x.id = id ∧ Conclusive s.store rule env x))

instance (s : State) : Decidable (Faithful s) :=
  inferInstanceAs (Decidable (∀ r ∈ s.store.insights, ∀ id ∈ r.resourceId,
    Insights.ackOf r = s.memory r.ruleName id))

/-- The instance is scanned on the 10th, and again after `days` days. -/
def rescanned (days : List Int) : Store :=
  Trace.exec (History.step .double) Store.empty (days.map fun day =>
    History.rdsScan (History.tenthOfDecember + day * Micros.day) [History.ordersDb])

def dayTen : Inventory := ⟨rescanned [0], by decide +kernel⟩

def dayTwelve : Inventory := ⟨rescanned [0, 2], by decide +kernel⟩

def runOn (day : Int) : Event :=
  .ruleRun History.rdsEolRule
    ⟨History.tenthOfDecember + day * Micros.day + 3600 * Micros.second,
      ⟨(Date.ofYmd 2026 12 10).ordinal + day⟩, some defaultScopeMaxAge⟩

/-- The gap found on the 10th is acknowledged. -/
def acknowledgedGap : List Event :=
  [runOn 0, .ack 0 .inProgress (some "ops") none (History.tenthOfDecember + 7200 * Micros.second)]

/-- Two days later the scan comes before the run: the acknowledgement is kept. -/
theorem ack_survives_rescan : Trace.Along (step .double) Decisive (start dayTen)
      (acknowledgedGap ++ [.inventory dayTwelve, runOn 2]) ∧
    Trace.Always (step .double) Faithful (start dayTen)
      (acknowledgedGap ++ [.inventory dayTwelve, runOn 2]) :=
  have h : Trace.Along (step .double) Decisive (start dayTen)
      (acknowledgedGap ++ [.inventory dayTwelve, runOn 2]) := by decide +kernel
  ⟨h, acks_survive .double dayTen _ h⟩

/-- A run before the scan finds the scope stale, and deletes the insight with its acknowledgement;
after the scan, the same gap comes back without it. -/
theorem stale_run_forgets : ¬ Trace.Always (step .double) Faithful (start dayTen)
    (acknowledgedGap ++ [runOn 2, .inventory dayTwelve, runOn 2]) := by
  decide +kernel

end Acks

end Constat
