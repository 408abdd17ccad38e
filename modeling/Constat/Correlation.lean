import Constat.FactView
import Constat.LostStart

/-!
# Correlation

The facts of the correlation pass, and what becomes of them. `volume_exists` of a snapshot and
`attached_volumes` of an instance are written only when the region's volumes were seen. A collection
whose volume job failed or did not run writes neither, and leaves the ones earlier collections wrote
as they are.

* `Quiet` — a step of a collection that writes no correlated fact.
* `Clear` — a collection so far wrote no correlated fact about a region.
* `jobsSucceeded` — the jobs of a call that end without an error, by region.
* `left_behind` — a correlated fact of a region whose volumes were not seen is one from before.
-/

namespace Constat

open Collectors
open Session (WritesOnly)
open SourceRuns (startRun)

/-! ## Correlated facts -/

def volumeExists : String := "aws.ec2.snapshot.volume_exists"

def attachedVolumes : String := "aws.ec2.instance.attached_volumes"

def isCorrelatedKey (key : String) : Bool := key = volumeExists || key = attachedVolumes

def FactRow.dotted (row : FactRow) : String := row.namespaceName ++ "." ++ row.key

def isCorrelated (row : FactRow) : Bool := isCorrelatedKey row.dotted

namespace Collector

/-- No fact of a job has the key of a correlated one. -/
theorem job_facts_direct {job : ScanJob} (hjob : job ∈ jobRegistry) (id account : Uuid) (raw : Raw)
    (observedAt : Micros) : ∀ f ∈ job.facts id account raw observedAt,
      isCorrelatedKey f.dotted = false := by
  have hkeys : ((job.facts id account raw observedAt).map Fact.dotted).all
      (fun key => !isCorrelatedKey key) = true := by
    simp only [jobRegistry, List.mem_cons, List.not_mem_nil, or_false] at hjob
    rcases hjob with rfl | rfl | rfl | rfl <;>
      simp [rds, Rds.dbToFacts, ec2Volume, Ec2.volumeToFacts, ec2Snapshot, Ec2.snapshotToFacts,
        ec2Instance, Ec2.instanceToFacts, makeFact, Fact.dotted, isCorrelatedKey, volumeExists,
        attachedVolumes]
  intro f hf
  have hall := List.all_eq_true.1 hkeys f.dotted (List.mem_map_of_mem hf)
  simpa using hall

/-! ## What the jobs keep -/

/-- `s'` comes after `s`, without a correlated fact between: the rows it knows have the ids and the
regions of the rows `s` knew, or an id drawn since. -/
structure Quiet (s : DbSession) (fresh : Uuid) (s' : DbSession) (fresh' : Uuid) : Prop where
  le : fresh ≤ fresh'
  committed : s'.committed = s.committed
  resources : ∀ x ∈ s'.working.resources, fresh ≤ x.id ∨
    ∃ y, (y ∈ s.working.resources ∨ y ∈ s.committed.resources) ∧ y.id = x.id ∧
      y.region = x.region
  facts : ∀ row, .fact row ∈ s'.pending → isCorrelated row = true → .fact row ∈ s.pending

def isQuietWrite : Write → Bool
  | .resource _ => false
  | .fact row => !isCorrelated row
  | _ => true

namespace Quiet

variable {s s' s'' : DbSession} {fresh fresh' fresh'' : Uuid}

theorem trans (h : Quiet s fresh s' fresh') (h' : Quiet s' fresh' s'' fresh'') :
    Quiet s fresh s'' fresh'' := by
  refine ⟨Nat.le_trans h.le h'.le, h'.committed.trans h.committed, fun x hx => ?_,
    fun row hrow hc => h.facts row (h'.facts row hrow hc) hc⟩
  rcases h'.resources x hx with hid | ⟨y, hy, hid, hregion⟩
  · exact .inl (Nat.le_trans h.le hid)
  · rcases hy with hy | hy
    · rcases h.resources y hy with hfresh | ⟨z, hz, hid', hregion'⟩
      · exact .inl (hid ▸ hfresh)
      · exact .inr ⟨z, hz, hid'.trans hid, hregion'.trans hregion⟩
    · exact .inr ⟨y, .inr (h.committed ▸ hy), hid, hregion⟩

theorem of_writesOnly (h : WritesOnly isQuietWrite s s') : Quiet s fresh s' fresh := by
  have hresources := h.frame Store.resources fun w hw t => by cases w <;> first | rfl | cases hw
  obtain ⟨ws, hws, rfl⟩ := h
  refine ⟨Nat.le_refl fresh, Session.writes_committed s ws, fun x hx => ?_, fun row hrow hc => ?_⟩
  · rw [hresources] at hx
    exact .inr ⟨x, .inl hx, rfl, rfl⟩
  · rw [Session.writes_pending, List.mem_append] at hrow
    rcases hrow with hrow | hrow
    · exact hrow
    · have hquiet := hws _ hrow
      simp [isQuietWrite, hc] at hquiet

theorem refl (s : DbSession) (fresh : Uuid) : Quiet s fresh s fresh :=
  of_writesOnly (WritesOnly.refl _ s)

theorem rollback (s : DbSession) (fresh : Uuid) : Quiet s fresh s.rollback fresh :=
  ⟨Nat.le_refl fresh, rfl, fun x hx => .inr ⟨x, .inr hx, rfl, rfl⟩, fun _ hrow => by cases hrow⟩

/-- Resource rows that keep their ids and regions. -/
theorem writes_resources {rows : List Resource}
    (h : ∀ r ∈ rows, ∃ y ∈ s.working.resources, y.id = r.id ∧ y.region = r.region) :
    Quiet s fresh (s.writes (rows.map .resource)) fresh := by
  refine ⟨Nat.le_refl fresh, Session.writes_committed _ _, fun x hx => ?_, fun row hrow _ => ?_⟩
  · have hmem : x ∈ rows ∨ x ∈ s.working.resources := by
      rw [Session.writes_working] at hx
      generalize s.working = t at hx
      clear h
      induction rows generalizing t with
      | nil => exact .inr hx
      | cons r rows ih =>
        rcases ih _ hx with hx | hx
        · exact .inl (List.mem_cons_of_mem r hx)
        · rcases Table.mem_put.1 hx with rfl | ⟨hx, _⟩
          · exact .inl List.mem_cons_self
          · exact .inr hx
    rcases hmem with hx | hx
    · obtain ⟨y, hy, hid, hregion⟩ := h x hx
      exact .inr ⟨y, .inl hy, hid, hregion⟩
    · exact .inr ⟨x, .inl hx, rfl, rfl⟩
  · simpa using hrow

end Quiet

/-- The id was drawn, and no resource of `region` has it. -/
structure Away (region : String) (s : DbSession) (fresh : Uuid) (id : Uuid) : Prop where
  drawn : id < fresh
  working : ∀ x ∈ s.working.resources, x.id = id → x.region ≠ region
  committed : ∀ x ∈ s.committed.resources, x.id = id → x.region ≠ region

theorem Away.quiet {region : String} {s s' : DbSession} {fresh fresh' id : Uuid}
    (h : Away region s fresh id) (hq : Quiet s fresh s' fresh') : Away region s' fresh' id := by
  refine ⟨Nat.lt_of_lt_of_le h.drawn hq.le, fun x hx hid => ?_, fun x hx hid => ?_⟩
  · rcases hq.resources x hx with hfresh | ⟨y, hy | hy, hyid, hregion⟩
    · exact absurd h.drawn (Nat.not_lt.2 (hid ▸ hfresh))
    · rw [← hregion]; exact h.working y hy (hyid.trans hid)
    · rw [← hregion]; exact h.committed y hy (hyid.trans hid)
  · exact h.committed x (hq.committed ▸ hx) hid

/-- The session a collection of the store `t` works in: what it has written of correlated facts is
not about `region`. -/
structure Clear (region : String) (t : Store) (s : DbSession) (fresh : Uuid) : Prop where
  le : t.resources.next ≤ fresh
  committed : s.committed = t
  resources : ∀ x ∈ s.working.resources, t.resources.next ≤ x.id ∨
    ∃ y ∈ t.resources, y.id = x.id ∧ y.region = x.region
  facts : ∀ row, .fact row ∈ s.pending → isCorrelated row = true →
    ∃ id, row.resourceId = some id ∧ Away region s fresh id

namespace Clear

variable {region : String} {t : Store} {s s' : DbSession} {fresh fresh' : Uuid}

theorem quiet (h : Clear region t s fresh) (hq : Quiet s fresh s' fresh') :
    Clear region t s' fresh' := by
  refine ⟨Nat.le_trans h.le hq.le, hq.committed.trans h.committed, fun x hx => ?_,
    fun row hrow hc => ?_⟩
  · rcases hq.resources x hx with hfresh | ⟨y, hy | hy, hid, hregion⟩
    · exact .inl (Nat.le_trans h.le hfresh)
    · rcases h.resources y hy with hnext | ⟨z, hz, hid', hregion'⟩
      · exact .inl (hid ▸ hnext)
      · exact .inr ⟨z, hz, hid'.trans hid, hregion'.trans hregion⟩
    · exact .inr ⟨y, h.committed ▸ hy, hid, hregion⟩
  · obtain ⟨id, hid, haway⟩ := h.facts row (hq.facts row hrow hc) hc
    exact ⟨id, hid, haway.quiet hq⟩

/-- A resource of another region. -/
theorem away (h : Clear region t s fresh) {x : Resource} (hx : x ∈ s.working.resources)
    (hfresh : x.id < fresh) (hregion : x.region ≠ region) : Away region s fresh x.id := by
  refine ⟨hfresh, fun y hy hid => ?_, fun y hy hid => ?_⟩
  · rw [Table.eq_of_key hy hx hid]; exact hregion
  · rw [h.committed] at hy
    rcases h.resources x hx with hnext | ⟨z, hz, hzid, hzregion⟩
    · exact absurd (t.resources.lt_next y hy) (Nat.not_lt.2 (hid ▸ hnext))
    · rw [Table.eq_of_key hy hz (hid.trans hzid.symm), hzregion]; exact hregion

end Clear

/-! ## One job -/

theorem upsertResource_quiet {s s' : DbSession} {key : Resources.NaturalKey} {now : Micros}
    {fresh : Uuid} {r : Resource} (h : Resources.upsertResource s key now fresh = .ok (s', r)) :
    Quiet s fresh s' (max fresh (r.id + 1)) ∧ r ∈ s'.working.resources ∧ r.region = key.region := by
  simp only [Resources.upsertResource] at h
  split at h
  · cases h
  · rename_i r₀ hget
    cases h
    have hmem : r₀ ∈ s.working.resources.rows.filter fun r => Resources.keyOf r = key :=
      eq_singleton_of_scalarOneOrNone hget ▸ List.mem_singleton_self r₀
    obtain ⟨hr₀, hkey⟩ := List.mem_filter.1 hmem
    have hq : Quiet s fresh (s.writes ([Resources.seen r₀ now].map .resource)) fresh :=
      Quiet.writes_resources fun r hr => ⟨r₀, hr₀, by rw [List.mem_singleton.1 hr]; exact ⟨rfl, rfl⟩⟩
    refine ⟨⟨Nat.le_max_left _ _, hq.committed, hq.resources, hq.facts⟩, Table.mem_put_self _ _, ?_⟩
    exact congrArg Resources.NaturalKey.region (of_decide_eq_true hkey)
  · cases h
    refine ⟨⟨Nat.le_max_left _ _, rfl, fun x hx => ?_, fun row hrow _ => ?_⟩,
      Table.mem_put_self _ _, rfl⟩
    · rcases Table.mem_put.1 hx with rfl | ⟨hx, _⟩
      · exact .inl (Nat.le_max_left _ _)
      · exact .inr ⟨x, .inl hx, rfl, rfl⟩
    · simpa using hrow

/-- The rows of a batch have the keys of its facts. -/
theorem upsertFacts_rows {s s' : DbSession} {facts : List Fact} {run : Option Uuid}
    {counts : Nat × Nat} (h : Facts.upsertFacts s facts run = .ok (s', counts)) :
    ∃ rows : List FactRow, s' = s.writes (rows.map .fact) ∧
      ∀ row ∈ rows, ∃ f ∈ facts, Facts.keyOfRow row = Facts.keyOf f := by
  refine ⟨_, (Facts.upsertFacts_cases h).1, fun row hrow => ?_⟩
  have hmem := List.mem_map_of_mem (f := Facts.keyOfRow) hrow
  rw [Facts.map_keyOfRow_rowsFrom, List.mem_map] at hmem
  obtain ⟨f, hf, hkey⟩ := hmem
  exact ⟨f, hf, hkey.symm⟩

theorem isCorrelated_of_key {row : FactRow} {f : Fact} (h : Facts.keyOfRow row = Facts.keyOf f) :
    isCorrelated row = isCorrelatedKey f.dotted := by
  simp only [Facts.keyOfRow, Facts.keyOf, Facts.FactKey.mk.injEq] at h
  simp [isCorrelated, FactRow.dotted, Fact.dotted, h]

theorem upsertFacts_quiet {s s' : DbSession} {facts : List Fact} {run : Option Uuid}
    {counts : Nat × Nat} {fresh : Uuid} (hdirect : ∀ f ∈ facts, isCorrelatedKey f.dotted = false)
    (h : Facts.upsertFacts s facts run = .ok (s', counts)) : Quiet s fresh s' fresh := by
  obtain ⟨rows, rfl, hrows⟩ := upsertFacts_rows h
  refine Quiet.of_writesOnly ⟨rows.map .fact, fun w hw => ?_, rfl⟩
  obtain ⟨row, hrow, rfl⟩ := List.mem_map.1 hw
  obtain ⟨f, hf, hkey⟩ := hrows row hrow
  simp [isQuietWrite, isCorrelated_of_key hkey, hdirect f hf]

theorem describeItem_quiet {call : Call} {job : ScanJob} {run : SourceRun} {st st' : JobState}
    {id : Uuid} {raw : Raw} {observedAt : Micros} (hjob : job ∈ jobRegistry)
    (h : describeItem call job run st id raw observedAt = .ok st') :
    Quiet st.session st.fresh st'.session st.fresh ∧ st'.fresh = st.fresh ∧
      st'.items = st.items := by
  simp only [describeItem] at h
  split at h
  · cases h
    exact ⟨Quiet.refl _ _, rfl, rfl⟩
  · split at h
    · cases h
    · rename_i s inserted updated hfacts
      cases h
      have hobservation : Quiet st.session st.fresh
          (Observations.insertObservation st.session (job.observation id raw observedAt)
            (some run.id)) st.fresh := Quiet.of_writesOnly (WritesOnly.write _ rfl)
      exact ⟨hobservation.trans (upsertFacts_quiet (job_facts_direct hjob _ _ _ _) hfacts), rfl, rfl⟩

/-- The items of a scan outside `region`. -/
def AwayItems (region : String) (st : JobState) : Prop :=
  ∀ item ∈ st.items, Away region st.session st.fresh item.1

theorem scanItem_quiet {call : Call} {scanned : String} {job : ScanJob} {run : SourceRun}
    {st st' : JobState} {item : ScannedItem} (hjob : job ∈ jobRegistry)
    (h : scanItem call scanned job run st item = .ok st') :
    Quiet st.session st.fresh st'.session st'.fresh ∧
      ∀ region t, Clear region t st.session st.fresh → scanned ≠ region → AwayItems region st →
        AwayItems region st' := by
  simp only [scanItem] at h
  split at h
  · cases h
  · split at h
    · cases h
    · rename_i s r hupsert
      obtain ⟨hq, hr, hregion⟩ := upsertResource_quiet hupsert
      obtain ⟨hq', hfresh, hitems⟩ := describeItem_quiet hjob h
      have hall := hq.trans hq'
      rw [← hfresh] at hall
      refine ⟨hall, fun region t hclear hne haway p hp => ?_⟩
      rw [hitems] at hp
      rcases List.mem_append.1 hp with hp | hp
      · exact (haway p hp).quiet hall
      · rw [List.mem_singleton.1 hp]
        have hraway := (hclear.quiet hq).away hr (Nat.le_max_right _ _) (by rw [hregion]; exact hne)
        have hlast := hraway.quiet hq'
        rw [← hfresh] at hlast
        exact hlast

theorem scanItems_quiet {call : Call} {scanned : String} {job : ScanJob} {run : SourceRun}
    {st st' : JobState} {items : List ScannedItem} (hjob : job ∈ jobRegistry)
    (h : items.foldlM (scanItem call scanned job run) st = .ok st') :
    Quiet st.session st.fresh st'.session st'.fresh ∧
      ∀ region t, Clear region t st.session st.fresh → scanned ≠ region → AwayItems region st →
        AwayItems region st' := by
  refine Loop.keep (fun st' => Quiet st.session st.fresh st'.session st'.fresh ∧
    ∀ region t, Clear region t st.session st.fresh → scanned ≠ region → AwayItems region st →
      AwayItems region st') ?_ ⟨Quiet.refl _ _, fun _ _ _ _ h => h⟩ h
  rintro item _ b b' ⟨hq, haway⟩ hitem
  obtain ⟨hq', haway'⟩ := scanItem_quiet hjob hitem
  refine ⟨hq.trans hq', fun region t hclear hne h => ?_⟩
  exact haway' region t (hclear.quiet hq) hne (haway region t hclear hne h)

theorem finishRun_quiet (s : DbSession) (fresh run : Uuid) (status : RunStatus)
    (resourcesFound : Option Nat) (error : Option String) (now : Micros) :
    Quiet s fresh (SourceRuns.finishRun s run status resourcesFound error now) fresh := by
  simp only [SourceRuns.finishRun]
  split
  · exact Quiet.refl _ _
  · exact Quiet.of_writesOnly (WritesOnly.write _ rfl)

theorem retireStaleResources_quiet (s : DbSession) (fresh : Uuid) (scope : Scope) (now : Micros) :
    Quiet s fresh (Resources.retireStaleResources s scope now).1 fresh := by
  have hrows : (Resources.retireStaleResources s scope now).1 = s.writes
      (((Resources.staleResources s.working scope).map (Resources.retired now)).map .resource) := by
    rw [List.map_map]
    rfl
  rw [hrows]
  refine Quiet.writes_resources fun r hr => ?_
  obtain ⟨y, hy, rfl⟩ := List.mem_map.1 hr
  refine ⟨y, ?_, rfl, rfl⟩
  simp only [Resources.staleResources] at hy
  split at hy
  · cases hy
  · split at hy
    · cases hy
    · exact (List.mem_filter.1 hy).1

theorem finishJob_quiet (call : Call) (region : String) (plan : JobPlan) (run : SourceRun)
    (st : JobState) (regionError : Option String) :
    let out := finishJob call region plan run st regionError
    Quiet st.session st.fresh out.state.session out.state.fresh ∧ out.state.items = st.items := by
  refine ⟨?_, rfl⟩
  simp only [finishJob]
  split
  · exact (finishRun_quiet _ _ _ _ _ _ _).trans (retireStaleResources_quiet _ _ _ _)
  · exact finishRun_quiet _ _ _ _ _ _ _

theorem isQuietWrite_of_isAbort (w : Write) (h : isAbort w = true) : isQuietWrite w = true := by
  cases w <;> first | rfl | cases h

/-- What a job leaves: no correlated facts, and only items of its own region. -/
theorem runRegionJob_quiet {call : Call} {scanned : String} {s : DbSession} {fresh : Uuid}
    {plan : JobPlan} {out : JobOutcome} (hjob : plan.job ∈ jobRegistry)
    (h : runRegionJob startRun call scanned s fresh plan = .ok out) :
    Quiet s fresh out.state.session out.state.fresh ∧
      ∀ region t, Clear region t s fresh → scanned ≠ region → AwayItems region out.state := by
  obtain ⟨ws, hws, _, ⟨_, run, _, hstart, _⟩ | ⟨_, hstart, _⟩⟩ := startRun_cases s
    (scopeOf call scanned plan.job) call.force call.jobId plan.script.startedAt plan.script.contended
  all_goals
    have haborts : Quiet s fresh (s.writes ws) fresh := Quiet.of_writesOnly
      ⟨ws, fun w hw => isQuietWrite_of_isAbort w (hws w hw), rfl⟩
    simp only [runRegionJob, hstart] at h
  · simp only [runScan] at h
    split at h
    · cases h
    · rename_i st hst
      split at h
      · cases h
      · cases h
        have hstarted := haborts.trans (Quiet.of_writesOnly
          (WritesOnly.write (s.writes ws) (w := .sourceRun run) rfl))
        obtain ⟨hscan, hitems⟩ := scanItems_quiet hjob hst
        obtain ⟨hfinish, hsame⟩ := finishJob_quiet call scanned plan run st _
        refine ⟨(hstarted.trans hscan).trans hfinish, fun region t hclear hne item hitem => ?_⟩
        rw [hsame] at hitem
        exact (hitems region t (hclear.quiet hstarted) hne (fun _ h => by cases h) item hitem).quiet
          hfinish
  · cases h
    exact ⟨haborts.trans (Quiet.rollback _ _), fun _ _ _ _ _ hitem => by cases hitem⟩

/-! ## One region -/

/-- The session is clear, and so are the items seen outside `region`. -/
structure RegionClear (region : String) (t : Store) (scanned : String) (rs : RegionState) :
    Prop where
  clear : Clear region t rs.collect.session rs.collect.fresh
  items : scanned ≠ region → ∀ key items, rs.itemsByJob.get? key = some items →
    ∀ item ∈ items, Away region rs.collect.session rs.collect.fresh item.1

theorem addOutcome_fresh (region : String) (job : ScanJob) (rs : RegionState) (out : JobOutcome) :
    (addOutcome region job rs out).collect.fresh = out.state.fresh := by
  cases h : out.error <;> simp [addOutcome, h]

theorem runJob_clear {region : String} {t : Store} {call : Call} {scanned : String}
    {plan : JobPlan} {rs rs' : RegionState} (hjob : plan.job ∈ jobRegistry)
    (hrs : RegionClear region t scanned rs) (h : runJob startRun call scanned rs plan = .ok rs') :
    RegionClear region t scanned rs' := by
  simp only [runJob] at h
  split at h
  · cases h
  · rename_i out hout
    cases h
    obtain ⟨hq, haway⟩ := runRegionJob_quiet hjob hout
    refine ⟨?_, fun hne key items hget item hitem => ?_⟩
    · rw [addOutcome_session, addOutcome_fresh]
      exact hrs.clear.quiet hq
    · rw [addOutcome_session, addOutcome_fresh]
      cases herror : out.error with
      | some e =>
        simp only [addOutcome, herror] at hget
        exact (hrs.items hne key items hget item hitem).quiet hq
      | none =>
        simp only [addOutcome, herror, Dict.get?_set] at hget
        split at hget
        · cases hget
          exact haway region t hrs.clear hne item hitem
        · exact (hrs.items hne key items hget item hitem).quiet hq

theorem correlated_resource {call : Call} {itemsByJob : Dict String (List Ec2.Item)} {now : Micros}
    {f : Fact} (hf : f ∈ correlated call itemsByJob now) :
    ∃ key items, itemsByJob.get? key = some items ∧ ∃ item ∈ items, f.resourceId = some item.1 := by
  have hitem : ∀ key, ∀ item ∈ (itemsByJob.get? key).getD [], f.resourceId = some item.1 →
      ∃ key items, itemsByJob.get? key = some items ∧
        ∃ item ∈ items, f.resourceId = some item.1 := by
    intro key item hitem hid
    cases hget : itemsByJob.get? key with
    | none => rw [hget] at hitem; cases hitem
    | some items => rw [hget] at hitem; exact ⟨key, items, hget, item, hitem, hid⟩
  simp only [correlated, Ec2.correlationFacts] at hf
  split at hf
  · cases hf
  · rcases List.mem_append.1 hf with hf | hf
    · obtain ⟨item, hmem, rfl⟩ := List.mem_map.1 hf
      exact hitem "ec2_snapshot" item hmem rfl
    · obtain ⟨item, hmem, rfl⟩ := List.mem_map.1 hf
      exact hitem "ec2_instance" item (List.mem_filter.1 hmem).1 rfl

theorem correlate_clear {region : String} {t : Store} {call : Call} {now : Micros}
    {scanned : String} {rs : RegionState} {c : CollectState} (hrs : RegionClear region t scanned rs)
    (hvolumes : scanned = region → rs.itemsByJob.get? "ec2_volume" = none)
    (h : correlate call now rs = .ok c) : Clear region t c.session c.fresh := by
  simp only [correlate] at h
  split at h
  · cases h; exact hrs.clear
  · rename_i hwrites
    split at h
    · cases h
    · rename_i s inserted updated hfacts
      cases h
      have hne : scanned ≠ region := by
        intro heq
        refine hwrites ?_
        simp [correlated, Ec2.correlationFacts, hvolumes heq]
      obtain ⟨rows, rfl, hrows⟩ := upsertFacts_rows hfacts
      have hworking : (rs.collect.session.writes (rows.map .fact)).working.resources =
          rs.collect.session.working.resources := (show WritesOnly isFact _ _ from
            ⟨rows.map .fact, fun w hw => by obtain ⟨row, _, rfl⟩ := List.mem_map.1 hw; rfl, rfl⟩).frame
          Store.resources fun w hw t => by cases w <;> first | rfl | cases hw
      have hkeep : ∀ {id : Uuid}, Away region rs.collect.session rs.collect.fresh id →
          Away region (rs.collect.session.writes (rows.map .fact)) rs.collect.fresh id :=
        fun haway => ⟨haway.drawn, by rw [hworking]; exact haway.working,
          by rw [Session.writes_committed]; exact haway.committed⟩
      refine ⟨hrs.clear.le, (Session.writes_committed _ _).trans hrs.clear.committed,
        by rw [hworking]; exact hrs.clear.resources, fun row hrow hc => ?_⟩
      rw [Session.writes_pending, List.mem_append] at hrow
      rcases hrow with hrow | hrow
      · obtain ⟨id, hid, haway⟩ := hrs.clear.facts row hrow hc
        exact ⟨id, hid, hkeep haway⟩
      · obtain ⟨row', hrow', heq⟩ := List.mem_map.1 hrow
        cases heq
        obtain ⟨f, hf, hkey⟩ := hrows row hrow'
        obtain ⟨key, items, hget, item, hitem, hid⟩ := correlated_resource hf
        refine ⟨item.1, ?_, hkeep (hrs.items hne key items hget item hitem)⟩
        exact (congrArg Facts.FactKey.resourceId hkey).trans hid

/-- The jobs of a region that end without an error. -/
def regionSucceeded (call : Call) (max : Int) (c : CollectState) (plan : RegionPlan) :
    List String :=
  if max ≤ c.consecutiveErrors then []
  else
    match plan.jobs.foldlM (runJob startRun call plan.region) ⟨c, false, .empty⟩ with
    | .error _ => []
    | .ok rs => rs.itemsByJob.keys

/-- The same for a list of regions, each job with its region. -/
def succeeded (call : Call) (max : Int) : CollectState → List RegionPlan → List (String × String)
  | _, [] => []
  | c, plan :: plans =>
    (regionSucceeded call max c plan).map (fun key => (plan.region, key)) ++
      match collectRegion startRun call max c plan with
      | .error _ => []
      | .ok c => succeeded call max c plans

theorem collectRegion_clear {region : String} {t : Store} {call : Call} {max : Int}
    {plan : RegionPlan} {c c' : CollectState} (hjobs : ∀ jp ∈ plan.jobs, jp.job ∈ jobRegistry)
    (hc : Clear region t c.session c.fresh)
    (hvolumes : plan.region = region → "ec2_volume" ∉ regionSucceeded call max c plan)
    (h : collectRegion startRun call max c plan = .ok c') : Clear region t c'.session c'.fresh := by
  simp only [regionSucceeded] at hvolumes
  rcases collectRegion_cases h with ⟨_, rfl⟩ | ⟨hclosed, rs, c₁, hrs, hc₁, rfl⟩
  · exact hc
  · rw [if_neg hclosed, hrs] at hvolumes
    have hstart : RegionClear region t plan.region ⟨c, false, .empty⟩ :=
      ⟨hc, fun _ _ _ hget => by cases hget⟩
    have hend := Loop.keep (RegionClear region t plan.region)
      (fun jp hjp _ _ hb hrun => runJob_clear (hjobs jp hjp) hb hrun) hstart hrs
    have hcorrelated := correlate_clear hend (fun heq => Dict.get?_eq_none.2 (hvolumes heq)) hc₁
    exact hcorrelated

theorem collectRegions_clear {region : String} {t : Store} {call : Call} {max : Int}
    {plans : List RegionPlan} {c c' : CollectState}
    (hjobs : ∀ plan ∈ plans, ∀ jp ∈ plan.jobs, jp.job ∈ jobRegistry)
    (hc : Clear region t c.session c.fresh)
    (hvolumes : (region, "ec2_volume") ∉ succeeded call max c plans)
    (h : plans.foldlM (collectRegion startRun call max) c = .ok c') :
    Clear region t c'.session c'.fresh := by
  induction plans generalizing c with
  | nil => cases h; exact hc
  | cons plan plans ih =>
    obtain ⟨c₁, hc₁, hrest⟩ := Loop.foldlM_cons_ok.1 h
    rw [succeeded, hc₁, List.mem_append, not_or] at hvolumes
    rw [List.forall_mem_cons] at hjobs
    refine ih hjobs.2 (collectRegion_clear hjobs.1 hc (fun heq hmem => hvolumes.1 ?_) hc₁)
      hvolumes.2 hrest
    rw [← heq]
    exact List.mem_map_of_mem hmem

/-! ## The call -/

theorem resolveJobs_registry {target : TargetAccount} {jobs : List ScanJob}
    (h : resolveJobs target = .ok jobs) : ∀ job ∈ jobs, job ∈ jobRegistry := by
  intro job hjob
  simp only [resolveJobs] at h
  split at h
  · cases h; exact hjob
  · obtain ⟨rt, _, hrt⟩ := Loop.mem_of_mapM h hjob
    split at hrt
    · rename_i job' hfind
      cases hrt
      exact List.mem_of_find?_eq_some hfind
    · cases hrt

theorem planOf_registry {world : World} {jobs : List ScanJob} {regions : List String}
    (hjobs : ∀ job ∈ jobs, job ∈ jobRegistry) :
    ∀ plan ∈ planOf world jobs regions, ∀ jp ∈ plan.jobs, jp.job ∈ jobRegistry := by
  intro plan hplan jp hjp
  obtain ⟨p, _, rfl⟩ := List.mem_map.1 hplan
  obtain ⟨q, hq, rfl⟩ := List.mem_map.1 hjp
  exact hjobs q.1 (List.fst_mem_of_mem_zipIdx hq)

/-- The jobs of a call that end without an error, each with its region. -/
def jobsSucceeded (target : TargetAccount) (options : Options) (world : World) (t : Store) :
    List (String × String) :=
  match resolveJobs target,
    Accounts.getOrCreate (Session.begin t) target.awsAccountId target.name with
  | .ok jobs, .ok (s, account) =>
    succeeded ⟨account.id, options.dryRun, options.force, options.jobId⟩
      options.maxConsecutiveRegionErrors ⟨s, s.working.resources.next, 0, 0, 0, [], [], 0⟩
      (planOf world jobs (regionsOf target))
  | _, _ => []

theorem getOrCreate_clear {region : String} {t : Store} {externalId : String}
    {name : Option String} {s : DbSession} {account : Account}
    (h : Accounts.getOrCreate (Session.begin t) externalId name = .ok (s, account)) :
    Clear region t s s.working.resources.next := by
  have hbegin : Clear region t (Session.begin t) t.resources.next :=
    ⟨Nat.le_refl _, rfl, fun x hx => .inr ⟨x, hx, rfl, rfl⟩, fun _ hrow => by cases hrow⟩
  simp only [Accounts.getOrCreate] at h
  split at h
  · cases h
  · cases h; exact hbegin
  · cases h; exact hbegin.quiet (Quiet.of_writesOnly (WritesOnly.write _ rfl))

theorem mem_facts {s : DbSession} {row : FactRow} (h : row ∈ s.working.facts) :
    row ∈ s.committed.facts ∨ .fact row ∈ s.pending := by
  rw [s.working_eq] at h
  generalize s.committed = t at h ⊢
  generalize s.pending = ws at h ⊢
  induction ws generalizing t with
  | nil => exact .inl h
  | cons w ws ih =>
    rcases ih _ h with h | h
    · cases w with
      | fact row' =>
        rcases Table.mem_put.1 h with rfl | ⟨h, _⟩
        · exact .inr List.mem_cons_self
        · exact .inl h
      | _ => exact .inl h
    · exact .inr (List.mem_cons_of_mem w h)

theorem conclude_quiet (target : TargetAccount) (options : Options) (regions : Nat)
    (c : CollectState) : ∃ s, Quiet c.session c.fresh s c.fresh ∧
      ((conclude target options regions c) = c.session ∨
        (conclude target options regions c) = s.commit) := by
  have hquiet : ∀ w, isEnding w = true → isQuietWrite w = true := fun w hw => by
    cases w <;> first | rfl | cases hw
  rcases conclude_wrote target options regions c with ⟨_, hc⟩ | ⟨_, s, hw, hc⟩
  · exact ⟨c.session, Quiet.refl _ _, .inl hc⟩
  · exact ⟨s, Quiet.of_writesOnly (hw.mono hquiet).writesOnly, .inr hc⟩

/-- A correlated fact of a region whose volumes the collection did not see is one from before. -/
theorem left_behind {region : String} {target : TargetAccount} {options : Options} {world : World}
    {t : Store} (hvolumes : (region, "ec2_volume") ∉ jobsSucceeded target options world t)
    {x : Resource} (hx : x ∈ (collectStep target options world t).resources)
    (hregion : x.region = region) {row : FactRow}
    (hrow : row ∈ (collectStep target options world t).facts) (hid : row.resourceId = some x.id)
    (hc : isCorrelated row = true) : row ∈ t.facts := by
  simp only [collectStep] at hx hrow
  split at hrow
  · exact hrow
  · rename_i s res hcall
    rw [hcall] at hx
    simp only at hx
    obtain ⟨jobs, s₀, account, c, hjobs, _, haccount, hfold, hout⟩ := collectTargetWith_ok hcall
    cases hout
    simp only [jobsSucceeded, hjobs, haccount] at hvolumes
    have hclear : Clear region t c.session c.fresh := collectRegions_clear
      (planOf_registry (resolveJobs_registry hjobs)) (getOrCreate_clear haccount) hvolumes hfold
    obtain ⟨s, hq, hs | hs⟩ := conclude_quiet target options (regionsOf target).length c
    · rw [hs, Session.close, hclear.committed] at hrow
      exact hrow
    · have hend := hclear.quiet hq
      rw [hs, Session.close_commit] at hrow hx
      rcases mem_facts hrow with hrow | hrow
      · rw [hend.committed] at hrow
        exact hrow
      · obtain ⟨id, hid', haway⟩ := hend.facts row hrow hc
        have hsame : x.id = id := Option.some.inj (hid.symm.trans hid')
        exact absurd hregion (haway.working x hx hsame)

end Collector

end Constat
