import Constat.Acks
import Constat.EventLog

/-!
# RuleIdempotence

`run_resource_rule` a second time, with the date and the clock of the first. The second run reads
what the first one read, and one thing that the first one wrote: the acknowledgements. A snapshot
of the acknowledgements has, for every gap that is emitted, the same entry before and after a run
(`get?_snapshot_after`), so the second run writes the rows of the first under new ids, and finds no
difference to log.
-/

namespace Constat

open Runner

namespace RuleIdempotence

/-- A row without its id. -/
def unnumbered (r : InsightRow) : InsightRow := { r with id := 0 }

def unnumberedInconclusive (r : InconclusiveRow) : InconclusiveRow := { r with id := 0 }

/-- The second run leaves the insights, with their acknowledgements, and the inconclusive records of
the first one, under other ids, and logs nothing; and a resource has one insight of the rule. -/
structure Idempotent (name : String) (t₁ t₂ : Store) : Prop where
  insights : t₂.insights.rows.map unnumbered = t₁.insights.rows.map unnumbered
  inconclusive : t₂.inconclusive.rows.map unnumberedInconclusive =
    t₁.inconclusive.rows.map unnumberedInconclusive
  events : t₂.insightEvents.rows = t₁.insightEvents.rows
  single : ((Insights.ofRule t₁ name).map (·.resourceId)).Nodup
  single' : ((Insights.ofRule t₂ name).map (·.resourceId)).Nodup

/-! ## The rows of a run -/

section

variable {fp : Arith} {rule : ResourceRule} {env : RunEnv} {t t' : Store}

/-- The fresh rows of a run, finished. -/
def freshRows (fp : Arith) (rule : ResourceRule) (env : RunEnv) (t : Store) : List InsightRow :=
  (insightRows t.insights.next (emittedAll t rule env) env.now).map (finishedRow fp rule.name t)

theorem ruleName_of_fresh {r : InsightRow} (h : r ∈ freshRows fp rule env t) :
    r.ruleName = rule.name := by
  obtain ⟨r₀, hr₀, rfl⟩ := List.mem_map.1 h
  obtain ⟨p, hp, rfl⟩ := List.mem_map.1 hr₀
  have hname : (finishedRow fp rule.name t (insightRow p.2 p.1 env.now)).ruleName = p.1.ruleName :=
    congrArg (fun h : Head => h.1) (head_finishedRow fp rule.name t _)
  rw [hname]
  exact ruleName_of_mem_emittedAll (List.fst_mem_of_mem_zipIdx hp)

theorem filter_fresh : ((freshRows fp rule env t).filter fun r => r.ruleName ≠ rule.name) = [] := by
  rw [List.filter_eq_nil_iff]
  intro r hr hne
  exact of_decide_eq_true hne (ruleName_of_fresh hr)

theorem ofRule_after (h : RunRows fp rule env t t') :
    Insights.ofRule t' rule.name = freshRows fp rule env t := by
  have hold : ((t.insights.rows.filter fun r => r.ruleName ≠ rule.name).filter
      fun r => r.ruleName = rule.name) = [] := by
    rw [List.filter_eq_nil_iff]
    intro r hr hname
    exact of_decide_eq_true (List.mem_filter.1 hr).2 (of_decide_eq_true hname)
  have hnew : ((freshRows fp rule env t).filter fun r => r.ruleName = rule.name) =
      freshRows fp rule env t :=
    List.filter_eq_self.2 fun r hr => decide_eq_true (ruleName_of_fresh hr)
  rw [Insights.ofRule, h.insights, List.filter_append, hold, List.nil_append]
  exact hnew

/-- A resource has at most one insight of the rule. -/
theorem nodup_resources (h : RunRows fp rule env t t') :
    ((Insights.ofRule t' rule.name).map (·.resourceId)).Nodup := by
  have hgaps : (freshRows fp rule env t).map Acks.gapOf =
      (emittedAll t rule env).map fun i => (i.ruleName, i.resourceId) := by
    rw [freshRows, List.map_map]
    exact map_insightRows _ _ env.now
      (fun id i => Acks.gapOf_finishedRow fp rule.name t (insightRow id i env.now)) _ _
  have hsame : ((freshRows fp rule env t).map (·.resourceId)).map (Prod.mk rule.name) =
      (freshRows fp rule env t).map Acks.gapOf := by
    rw [List.map_map]
    exact List.map_congr_left fun r hr => Prod.ext (ruleName_of_fresh hr).symm rfl
  have hnodup := Acks.nodup_emitted t rule env
  rw [← hgaps, ← hsame] at hnodup
  rw [ofRule_after h]
  exact List.Nodup.of_map _ hnodup

/-! ## Acknowledgements -/

def gapKey (name : String) (id : Uuid) : String := "resource:" ++ name ++ ":" ++ Uuid.text id

/-- A fresh row carries the acknowledgement that the snapshot has under its stable id. -/
theorem ackOf_fresh {r : InsightRow} (h : r ∈ freshRows fp rule env t) :
    Insights.ackOf r = (Insights.snapshotAcks t rule.name).get? (Insights.ackSnapshotKey r) := by
  obtain ⟨r₀, hr₀, rfl⟩ := List.mem_map.1 h
  obtain ⟨p, hp, rfl⟩ := List.mem_map.1 hr₀
  obtain ⟨x, _, hi⟩ := List.mem_flatMap.1 (List.fst_mem_of_mem_zipIdx hp)
  obtain ⟨hname, hid⟩ := Prod.mk.inj (Acks.gapOf_finishedRow fp rule.name t
    (insightRow p.2 p.1 env.now))
  have hres : (insightRow p.2 p.1 env.now).resourceId = some x.id := (mem_emitted hi).2
  rw [Acks.ackSnapshotKey_resource (hid.trans hres), hname]
  exact Acks.ackOf_finishedRow fp rule.name t rfl hres

/-- Every emitted gap has its row. -/
theorem exists_fresh {i : Insight} (hi : i ∈ emittedAll t rule env) {id : Uuid}
    (hid : i.resourceId = some id) :
    ∃ r ∈ freshRows fp rule env t, Insights.ackSnapshotKey r = gapKey rule.name id := by
  have hgaps : (freshRows fp rule env t).map Acks.gapOf =
      (emittedAll t rule env).map fun i => (i.ruleName, i.resourceId) := by
    rw [freshRows, List.map_map]
    exact map_insightRows _ _ env.now
      (fun id i => Acks.gapOf_finishedRow fp rule.name t (insightRow id i env.now)) _ _
  have hmem : (i.ruleName, i.resourceId) ∈ (freshRows fp rule env t).map Acks.gapOf := by
    rw [hgaps]
    exact List.mem_map.2 ⟨i, hi, rfl⟩
  obtain ⟨r, hr, hgap⟩ := List.mem_map.1 hmem
  obtain ⟨_, hres⟩ := Prod.mk.inj hgap
  refine ⟨r, hr, ?_⟩
  rw [Acks.ackSnapshotKey_resource (hres.trans hid), ruleName_of_fresh hr]
  rfl

/-- After a run the snapshot has, for every gap the run emits, what it had before. -/
theorem get?_snapshot_after (h : RunRows fp rule env t t') {i : Insight}
    (hi : i ∈ emittedAll t rule env) {id : Uuid} (hid : i.resourceId = some id) :
    (Insights.snapshotAcks t' rule.name).get? (gapKey rule.name id) =
      (Insights.snapshotAcks t rule.name).get? (gapKey rule.name id) := by
  cases hsnap : (Insights.snapshotAcks t' rule.name).get? (gapKey rule.name id) with
  | some ack =>
    obtain ⟨r, hr, hkey, hack⟩ := Acks.get?_snapshot_some hsnap
    rw [ofRule_after h] at hr
    rw [← hkey, ← ackOf_fresh hr, hack]
  | none =>
    obtain ⟨r, hr, hkey⟩ : ∃ r ∈ freshRows fp rule env t, _ := exists_fresh hi hid
    have hmem : r ∈ Insights.ofRule t' rule.name := ofRule_after h ▸ hr
    have hnone := Acks.get?_snapshot_none hmem (by rw [hkey, hsnap])
    rw [← hkey, ← ackOf_fresh hr, hnone]

/-! ## The rows of two runs -/

theorem unnumbered_contextualized (fp : Arith) (t : Store) (name : String) (r : InsightRow) :
    Reconcile.contextualized fp t name (unnumbered r) =
      (Reconcile.contextualized fp t name r).map unnumbered := by
  simp only [Reconcile.contextualized, unnumbered]
  split
  · rfl
  · split
    · rfl
    · rw [Option.map_map]
      rfl

theorem unnumbered_carried (acks : Dict String Insights.Ack) (r : InsightRow) :
    Insights.carried acks (unnumbered r) = (Insights.carried acks r).map unnumbered := by
  have hkey : Insights.ackSnapshotKey (unnumbered r) = Insights.ackSnapshotKey r := rfl
  have hstatus : (unnumbered r).ackStatus = r.ackStatus := rfl
  rw [Insights.carried, Insights.carried, hkey, hstatus]
  split
  · rw [Option.map_map]
    rfl
  · rfl

/-- The context and the carried acknowledgement of a row do not depend on its id. -/
theorem unnumbered_finishedRow (fp : Arith) (name : String) (t : Store) (r : InsightRow) :
    unnumbered (finishedRow fp name t r) = finishedRow fp name t (unnumbered r) := by
  simp only [finishedRow, unnumbered_contextualized, Option.getD_map, unnumbered_carried]

/-- The second run finishes the row of an emitted insight as the first one did. -/
theorem finishedRow_after (h : RunRows fp rule env t t') (hsame : SameInventory t t') {i : Insight}
    (hi : i ∈ emittedAll t rule env) (n : Uuid) :
    finishedRow fp rule.name t' (insightRow n i env.now) =
      finishedRow fp rule.name t (insightRow n i env.now) := by
  obtain ⟨x, _, hx⟩ := List.mem_flatMap.1 hi
  have hres : i.resourceId = some x.id := (mem_emitted hx).2
  let r := (Reconcile.contextualized fp t rule.name (insightRow n i env.now)).getD
    (insightRow n i env.now)
  have hkey : Insights.ackSnapshotKey r = gapKey rule.name x.id := by
    obtain ⟨payload, hrow⟩ := Acks.contextualized_payload fp t rule.name (insightRow n i env.now)
    have hrule : (insightRow n i env.now).ruleName = rule.name := (mem_emitted hx).1
    have hresource : r.resourceId = some x.id := by rw [show r = _ from hrow]; exact hres
    have hname : r.ruleName = rule.name := by rw [show r = _ from hrow]; exact hrule
    rw [Acks.ackSnapshotKey_resource hresource, hname]
    rfl
  have hcarried : Insights.carried (Insights.snapshotAcks t' rule.name) r =
      Insights.carried (Insights.snapshotAcks t rule.name) r := by
    rw [Insights.carried, Insights.carried, hkey, get?_snapshot_after h hi hres]
  simp only [finishedRow, contextualized_congr hsame]
  exact congrArg (fun o => o.getD r) hcarried

theorem map_fresh (fp : Arith) (rule : ResourceRule) (env : RunEnv) (t : Store) :
    (freshRows fp rule env t).map unnumbered =
      (emittedAll t rule env).map fun i => finishedRow fp rule.name t (insightRow 0 i env.now) := by
  rw [freshRows, List.map_map]
  refine map_insightRows _ _ env.now (fun id i => ?_) _ _
  exact unnumbered_finishedRow fp rule.name t (insightRow id i env.now)

theorem insights_after (h : RunRows fp rule env t t') (hsame : SameInventory t t') {t'' : Store}
    (h' : RunRows fp rule env t' t'') :
    t''.insights.rows.map unnumbered = t'.insights.rows.map unnumbered := by
  have hold : (t'.insights.rows.filter fun r => r.ruleName ≠ rule.name) =
      t.insights.rows.filter fun r => r.ruleName ≠ rule.name := by
    rw [h.insights, List.filter_append, List.filter_filter]
    simp only [Bool.and_self]
    exact (congrArg _ filter_fresh).trans (List.append_nil _)
  have hfresh : (freshRows fp rule env t').map unnumbered =
      (freshRows fp rule env t).map unnumbered := by
    rw [map_fresh, map_fresh, (emittedAll_congr hsame rule env).1]
    exact List.map_congr_left fun i hi => finishedRow_after h hsame hi 0
  rw [h'.insights, hold, h.insights, List.map_append, List.map_append]
  exact congrArg _ hfresh

theorem inconclusive_after (h : RunRows fp rule env t t') (hsame : SameInventory t t')
    {t'' : Store} (h' : RunRows fp rule env t' t'') :
    t''.inconclusive.rows.map unnumberedInconclusive =
      t'.inconclusive.rows.map unnumberedInconclusive := by
  have hnew : ((inconclusiveRows t.inconclusive.next (undecidedAll t rule env) env.now).filter
      fun r => r.ruleName ≠ rule.name) = [] := by
    rw [List.filter_eq_nil_iff]
    intro r hr hne
    obtain ⟨p, hp, rfl⟩ := List.mem_map.1 hr
    obtain ⟨x, _, hi⟩ := List.mem_flatMap.1 (List.fst_mem_of_mem_zipIdx hp)
    exact of_decide_eq_true hne (mem_undecided hi).1
  have hold : (t'.inconclusive.rows.filter fun r => r.ruleName ≠ rule.name) =
      t.inconclusive.rows.filter fun r => r.ruleName ≠ rule.name := by
    rw [h.inconclusive, List.filter_append, List.filter_filter]
    simp only [Bool.and_self]
    exact (congrArg _ hnew).trans (List.append_nil _)
  have hmap := map_inconclusiveRows unnumberedInconclusive
    (fun i => inconclusiveRow 0 i env.now) env.now fun _ _ => rfl
  rw [h'.inconclusive, hold, h.inconclusive, List.map_append, List.map_append, hmap, hmap,
    (emittedAll_congr hsame rule env).2]

/-! ## The log -/

/-- Snapshots of a rule whose insights have one and the same identities have no difference. -/
theorem absentFrom_eq_nil {name : String} (hheads : ∀ h : Head, h ∈ heads t → h ∈ heads t') :
    InsightEvents.absentFrom (InsightEvents.snapshotRule t name)
      (InsightEvents.snapshotRule t' name) = [] := by
  rw [List.eq_nil_iff_forall_not_mem]
  intro p hp
  obtain ⟨hr, hprint, hgone⟩ := mem_absentFrom hp
  obtain ⟨hmem, hname⟩ := List.mem_filter.1 hr
  obtain ⟨r', hr', hhead⟩ := mem_heads.1 (hheads _ (mem_heads.2 ⟨p.2, hmem, rfl⟩))
  obtain ⟨hname', hrest⟩ := Prod.mk.inj hhead
  obtain ⟨hres, htitle⟩ := Prod.mk.inj hrest
  refine hgone r' (List.mem_filter.2 ⟨hr', by rw [hname']; exact hname⟩) ?_
  rw [← hprint, InsightEvents.fingerprint, InsightEvents.fingerprint, hname', hres, htitle]

theorem events_after (h : EventLog.Diffed fp rule.name t t')
    (hheads : heads t' = heads t) : t'.insightEvents.rows = t.insightEvents.rows := by
  obtain ⟨new₁, new₂, hrows, hnew₁, hnew₂⟩ := h.log
  rw [absentFrom_eq_nil fun hd hm => hheads ▸ hm] at hnew₁
  rw [absentFrom_eq_nil fun hd hm => hheads.symm ▸ hm] at hnew₂
  cases hnew₁
  cases hnew₂
  rw [hrows, List.append_nil, List.append_nil]

theorem heads_of_unnumbered (h : t'.insights.rows.map unnumbered = t.insights.rows.map unnumbered) :
    heads t' = heads t := by
  have hhead : ∀ u : Store, heads u = (u.insights.rows.map unnumbered).map head := by
    intro u
    rw [List.map_map]
    rfl
  rw [hhead, hhead, h]

end

/-- A second run of a rule, with the date and the clock of the first, changes nothing. -/
theorem runResourceRule_idempotent (fp : Arith) (rule : ResourceRule) (env : RunEnv)
    (s : DbSession) :
    let s₁ := (runResourceRule fp rule env s).1
    Idempotent rule.name s₁.working (runResourceRule fp rule env s₁).1.working := by
  intro s₁
  obtain ⟨heffect, hrows, _⟩ := runResourceRule_spec fp rule env s
  obtain ⟨_, hrows', _⟩ := runResourceRule_spec fp rule env s₁
  have hinsights := insights_after hrows heffect.inventory hrows'
  exact ⟨hinsights, inconclusive_after hrows heffect.inventory hrows',
    events_after (EventLog.diffed_runResourceRule fp rule env s₁) (heads_of_unnumbered hinsights),
    nodup_resources hrows, nodup_resources hrows'⟩

end RuleIdempotence

end Constat
