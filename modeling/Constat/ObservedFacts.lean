import Constat.FactView
import Constat.ReplayFacts
import Constat.ScanEnds

/-!
# ObservedFacts

The RDS facts of a store against its RDS observations. A scan writes both in one transaction, so
after any history of scans the row of a key shows what its last observation says (`Faithful`).

* `Owned`    — the resource of an observation is there, and the account of the resource.
* `log`      — what the observations say, key by key, in the order they were written.
* `Holds`    — what a later store keeps of the resources and accounts.
* `Faithful` — the facts show the log (`faithful_history`).
-/

namespace Constat

open Collectors Collector
open Session (WritesOnly)

namespace ReplayFacts

/-! ## What the observations say -/

def Owned (t : Store) (o : ObservationRow) : Prop :=
  ∃ r, t.resources.get? o.resourceId = some r ∧ (t.accounts.get? r.accountId).isSome = true

def entriesOf (resources : Table Resource.id) (o : ObservationRow) :
    List (Facts.FactKey × Facts.Shown) :=
  (translate resources supportedSources o).elim [] fun facts => Facts.entries facts o.sourceRunId

def log (resources : Table Resource.id) (os : List ObservationRow) :
    List (Facts.FactKey × Facts.Shown) :=
  os.flatMap (entriesOf resources)

theorem translate_found {resources : Table Resource.id} {o : ObservationRow} {r : Resource}
    (hsource : o.source = Rds.sourceName) (hr : resources.get? o.resourceId = some r) :
    translate resources supportedSources o = some (Rds.dbToFacts o.resourceId r.accountId
      (payloadToDb (payloadOf o.payload) r.region) o.observedAt) := by
  have hid : r.id = o.resourceId := (Table.get?_eq_some.1 hr).2
  simp [translate, supportedSources, hsource, hr, hid]

/-- An observation of another source is skipped. -/
theorem translate_other {resources : Table Resource.id} {o : ObservationRow}
    (hsource : o.source ≠ Rds.sourceName) : translate resources supportedSources o = none := by
  simp [translate, supportedSources, hsource]

theorem entriesOf_other {resources : Table Resource.id} {o : ObservationRow}
    (hsource : o.source ≠ Rds.sourceName) : entriesOf resources o = [] := by
  rw [entriesOf, translate_other hsource]
  rfl

/-! ## What a later store keeps -/

/-- The resources of `t` are in `t'` too, in their account and region, and so are its accounts. -/
structure Holds (t t' : Store) : Prop where
  resources : ∀ id r, t.resources.get? id = some r →
    ∃ r', t'.resources.get? id = some r' ∧ r'.accountId = r.accountId ∧ r'.region = r.region
  accounts : ∀ id, (t.accounts.get? id).isSome = true → (t'.accounts.get? id).isSome = true

theorem Holds.of_eq {t t' : Store} (hresources : t'.resources = t.resources)
    (haccounts : t'.accounts = t.accounts) : Holds t t' where
  resources := fun _ r hr => ⟨r, hresources ▸ hr, rfl, rfl⟩
  accounts := fun _ h => haccounts ▸ h

theorem Owned.held {t t' : Store} {o : ObservationRow} (h : Owned t o) (hheld : Holds t t') :
    Owned t' o := by
  obtain ⟨r, hr, haccount⟩ := h
  obtain ⟨r', hr', hsame, _⟩ := hheld.resources _ r hr
  exact ⟨r', hr', hsame ▸ hheld.accounts _ haccount⟩

/-- What an observation says does not change. -/
theorem translate_held {t t' : Store} {o : ObservationRow} (h : Owned t o)
    (hheld : Holds t t') :
    translate t'.resources supportedSources o = translate t.resources supportedSources o := by
  by_cases hsource : o.source = Rds.sourceName
  · obtain ⟨r, hr, _⟩ := h
    obtain ⟨r', hr', haccount, hregion⟩ := hheld.resources _ r hr
    rw [translate_found hsource hr, translate_found hsource hr', haccount, hregion]
  · rw [translate_other hsource, translate_other hsource]

theorem log_held {t t' : Store} {os : List ObservationRow}
    (h : ∀ o ∈ os, o.source = Rds.sourceName → Owned t o) (hheld : Holds t t') :
    log t'.resources os = log t.resources os := by
  refine List.flatMap_congr fun o ho => ?_
  by_cases hsource : o.source = Rds.sourceName
  · rw [entriesOf, entriesOf, translate_held (h o ho hsource) hheld]
  · rw [entriesOf_other hsource, entriesOf_other hsource]

/-! ## The facts show the log -/

structure Faithful (t : Store) : Prop where
  owned : ∀ o ∈ t.observations, o.source = Rds.sourceName → Owned t o
  shows : ∀ k, k.source = Rds.sourceName →
    Facts.Shows t.facts k (Latest.latest (log t.resources t.observations.rows) k)

/-- No scan has seen a database yet. -/
structure Unobserved (t : Store) : Prop where
  observations : ∀ o ∈ t.observations, o.source ≠ Rds.sourceName
  facts : ∀ row ∈ t.facts, row.source ≠ Rds.sourceName

theorem Unobserved.faithful {t : Store} (h : Unobserved t) : Faithful t where
  owned := fun o ho hsource => absurd hsource (h.observations o ho)
  shows := by
    intro k hk
    have hnil : log t.resources t.observations.rows = [] :=
      List.flatMap_eq_nil_iff.2 fun o ho => entriesOf_other (h.observations o ho)
    rw [hnil]
    refine ⟨none, Facts.rowAt_none.2 fun row hrow hkey => h.facts row hrow ?_, rfl⟩
    have hsource : row.source = k.source := congrArg Facts.FactKey.source hkey
    exact hsource.trans hk

section

variable {t t' : Store}

theorem Faithful.held (h : Faithful t) (hheld : Holds t t') (hfacts : t'.facts = t.facts)
    (hobservations : t'.observations = t.observations) : Faithful t' where
  owned := fun o ho hsource => (h.owned o (hobservations ▸ ho) hsource).held hheld
  shows := by
    intro k hk
    rw [hfacts, hobservations, log_held h.owned hheld]
    exact h.shows k hk

theorem log_put {resources : Table Resource.id} {observations : Table ObservationRow.id}
    {o : ObservationRow} (ho : o.id = observations.next) :
    log resources (observations.put o).rows =
      log resources observations.rows ++ entriesOf resources o := by
  rw [Table.rows_put_next observations ho, log, List.flatMap_append, List.flatMap_singleton]
  rfl

/-- An observation and its facts, in one transaction. -/
theorem Faithful.observed (h : Faithful t) {o : ObservationRow} {facts : List Fact}
    (hid : o.id = t.observations.next) (howned : Owned t o)
    (hfacts : translate t.resources supportedSources o = some facts)
    (hkeys : (facts.map Facts.keyOf).Nodup)
    (hone : ∀ f ∈ facts, ∃ row, Facts.RowAt t.facts (Facts.keyOf f) row) :
    Faithful (Facts.upserted { t with observations := t.observations.put o } facts
      o.sourceRunId) where
  owned := by
    intro o' ho' hsource
    have hheld : Holds t (Facts.upserted { t with observations := t.observations.put o } facts
      o.sourceRunId) := Holds.of_eq rfl rfl
    rcases Table.mem_put.1 ho' with rfl | ⟨ho', _⟩
    · exact howned.held hheld
    · exact (h.owned o' ho' hsource).held hheld
  shows := by
    intro k hk
    have hentries : entriesOf t.resources o = Facts.entries facts o.sourceRunId := by
      rw [entriesOf, hfacts]
      rfl
    have hlog : log t.resources (t.observations.put o).rows =
        log t.resources t.observations.rows ++ entriesOf t.resources o := log_put hid
    rw [hentries] at hlog
    show Facts.Shows _ k (Latest.latest (log t.resources (t.observations.put o).rows) k)
    rw [hlog, Latest.latest_append]
    exact Facts.shows_upserted (t := { t with observations := t.observations.put o }) hkeys hone
      (h.shows k hk)

/-- Facts of another source. -/
theorem Faithful.upserted_other (h : Faithful t) {facts : List Fact} {run : Option Uuid}
    (hother : ∀ f ∈ facts, f.source ≠ Rds.sourceName) :
    Faithful (Facts.upserted t facts run) where
  owned := fun o ho hsource => (h.owned o ho hsource).held (Holds.of_eq rfl rfl)
  shows := by
    intro k hk
    refine Facts.shows_upserted_other (fun f hf hkey => hother f hf ?_) (h.shows k hk)
    have hsource : f.source = k.source := congrArg Facts.FactKey.source hkey
    exact hsource.trans hk

/-- An observation of another source. -/
theorem Faithful.observed_other (h : Faithful t) {o : ObservationRow}
    (hid : o.id = t.observations.next) (hother : o.source ≠ Rds.sourceName) :
    Faithful { t with observations := t.observations.put o } where
  owned := by
    intro o' ho' hsource
    rcases Table.mem_put.1 ho' with rfl | ⟨ho', _⟩
    · exact absurd hsource hother
    · exact (h.owned o' ho' hsource).held (Holds.of_eq rfl rfl)
  shows := by
    intro k hk
    show Facts.Shows t.facts k (Latest.latest (log t.resources (t.observations.put o).rows) k)
    rw [log_put hid, entriesOf_other hother, List.append_nil]
    exact h.shows k hk

/-- A resource put over none, or over one of its own account and region. -/
theorem Holds.put_resource {r : Resource}
    (h : ∀ y ∈ t.resources, y.id = r.id → y.accountId = r.accountId ∧ y.region = r.region) :
    Holds t { t with resources := t.resources.put r } where
  resources := by
    intro id y hy
    show ∃ r', (t.resources.put r).get? id = some r' ∧ _
    rw [Table.get?_put]
    obtain ⟨hmem, hid⟩ := Table.get?_eq_some.1 hy
    by_cases hsame : id = r.id
    · obtain ⟨haccount, hregion⟩ := h y hmem (hid.trans hsame)
      exact ⟨r, if_pos hsame, haccount.symm, hregion.symm⟩
    · exact ⟨y, (if_neg hsame).trans hy, rfl, rfl⟩
  accounts := fun _ h => h

theorem Holds.put_account (t : Store) (a : Account) :
    Holds t { t with accounts := t.accounts.put a } where
  resources := fun _ r hr => ⟨r, hr, rfl, rfl⟩
  accounts := by
    intro id h
    show ((t.accounts.put a).get? id).isSome = true
    rw [Table.get?_put]
    split
    · rfl
    · exact h

end

/-! ## One item -/

/-- The facts show the log, in what a session sees and in what it has committed. -/
structure Sees (s : DbSession) : Prop where
  working : Faithful s.working
  committed : Faithful s.committed

theorem Sees.writes {s s' : DbSession} (h : Sees s) (hcommitted : s'.committed = s.committed)
    (hworking : Faithful s'.working) : Sees s' where
  working := hworking
  committed := hcommitted ▸ h.committed

theorem Sees.rollback {s : DbSession} (h : Sees s) : Sees s.rollback where
  working := h.committed
  committed := h.committed

/-- The writes about runs, and the records of the end of a call. -/
def isAside : Write → Bool
  | .sourceRun _ | .auditEvent _ | .piiClassification _ => true
  | _ => false

theorem Sees.aside {s s' : DbSession} (h : Sees s) (hwrites : WritesOnly isAside s s') :
    Sees s' := by
  have hresources : s'.working.resources = s.working.resources :=
    hwrites.frame Store.resources fun w hw t => by cases w <;> first | rfl | cases hw
  have haccounts : s'.working.accounts = s.working.accounts :=
    hwrites.frame Store.accounts fun w hw t => by cases w <;> first | rfl | cases hw
  have hfacts : s'.working.facts = s.working.facts :=
    hwrites.frame Store.facts fun w hw t => by cases w <;> first | rfl | cases hw
  have hobservations : s'.working.observations = s.working.observations :=
    hwrites.frame Store.observations fun w hw t => by cases w <;> first | rfl | cases hw
  exact h.writes hwrites.committed
    (h.working.held (Holds.of_eq hresources haccounts) hfacts hobservations)

/-- A job observes and derives under its own source, and only one job has the source of RDS. -/
theorem job_sources {job : ScanJob} (hjob : job ∈ jobRegistry) :
    (∀ id raw observedAt, (job.observation id raw observedAt).source = job.source) ∧
      (∀ id account raw observedAt, ∀ f ∈ job.facts id account raw observedAt,
        f.source = job.source) ∧
      (job.source = Rds.sourceName → job = rds) := by
  simp only [jobRegistry, List.mem_cons, List.not_mem_nil, or_false] at hjob
  rcases hjob with rfl | rfl | rfl | rfl <;>
    simp [rds, Rds.dbToFacts, Rds.dbToObservation, ec2Volume, Ec2.volumeToFacts,
      Ec2.volumeToObservation, ec2Snapshot, Ec2.snapshotToFacts, Ec2.snapshotToObservation,
      ec2Instance, Ec2.instanceToFacts, Ec2.instanceToObservation, makeFact, Ec2.sourceName,
      Rds.sourceName]

theorem upsertResource_held {s s' : DbSession} {key : Resources.NaturalKey} {now : Micros}
    {fresh : Uuid} {r : Resource} (h : Resources.upsertResource s key now fresh = .ok (s', r)) :
    Holds s.working s'.working := by
  obtain ⟨rfl, hkey, _, _, hfrom⟩ := Retirement.upsertResource_spec h
  refine Holds.put_resource fun y hy hid => ?_
  rcases hfrom with ⟨r₀, hr₀, _, rfl⟩ | hnone
  · have hsame : y = r₀ := Table.eq_of_key hy hr₀ hid
    rw [hsame]
    exact ⟨rfl, rfl⟩
  · exact absurd hid (hnone y hy).2

/-- An item of a resource that is there, in the region and the account of the scan. -/
theorem describeItem_sees {call : Call} {region : String} {job : ScanJob} (hjob : job ∈ jobRegistry)
    {run : SourceRun} {st st' : JobState} {id : Uuid} {raw : Raw} {observedAt : Micros}
    (hst : Sees st.session) {r : Resource} (hr : st.session.working.resources.get? id = some r)
    (haccount : r.accountId = call.accountId) (hregion : r.region = region)
    (hexists : (st.session.working.accounts.get? call.accountId).isSome = true)
    (h : describeItem call job run st id (tagRegion region raw) observedAt = .ok st') :
    Sees st'.session := by
  obtain ⟨hobserved, hderived, hrds⟩ := job_sources hjob
  simp only [describeItem] at h
  split at h
  · cases h
    exact hst
  · split at h
    · cases h
    · rename_i s inserted updated hfacts
      cases h
      obtain ⟨hs, hone⟩ := Facts.upsertFacts_cases hfacts
      have hcommitted : s.committed = st.session.committed := by
        rw [hs, Session.writes_committed]
        rfl
      refine hst.writes hcommitted ?_
      rw [Facts.upsertFacts_working hfacts]
      by_cases hsource : job.source = Rds.sourceName
      · obtain rfl := hrds hsource
        refine hst.working.observed rfl ⟨r, hr, haccount ▸ hexists⟩ ?_
          (job_facts_owned hjob id call.accountId (tagRegion region raw) observedAt).2 hone
        rw [translate_found rfl hr, haccount, hregion]
        exact congrArg some (dbToFacts_payload id call.accountId region raw observedAt)
      · refine (hst.working.observed_other rfl ?_).upserted_other fun f hf => ?_
        · exact (hobserved _ _ _).trans_ne hsource
        · exact (hderived _ _ _ _ f hf).trans_ne hsource

theorem scanItem_sees {call : Call} {region : String} {job : ScanJob} (hjob : job ∈ jobRegistry)
    {run : SourceRun} {st st' : JobState} {item : ScannedItem} (hst : Sees st.session)
    (hexists : (st.session.working.accounts.get? call.accountId).isSome = true)
    (h : scanItem call region job run st item = .ok st') : Sees st'.session := by
  obtain ⟨native, s, r, _, hupsert, hdescribe⟩ := scanItem_cases h
  have hheld := upsertResource_held hupsert
  obtain ⟨rfl, hkey, _⟩ := Retirement.upsertResource_spec hupsert
  set st₁ := st.upserted (st.session.write (.resource r)) r.id (tagRegion region item.raw)
  have hseen : Sees st₁.session := hst.writes rfl (hst.working.held hheld rfl rfl)
  have hget : st₁.session.working.resources.get? r.id = some r :=
    Table.get?_eq_some.2 ⟨Table.mem_put_self _ _, rfl⟩
  have haccount : r.accountId = call.accountId := congrArg Resources.NaturalKey.accountId hkey
  have hregion : r.region = region := congrArg Resources.NaturalKey.region hkey
  have hexists₁ : (st₁.session.working.accounts.get? call.accountId).isSome = true := hexists
  exact describeItem_sees hjob hseen hget haccount hregion hexists₁ hdescribe

theorem scanItems_sees {call : Call} {region : String} {job : ScanJob} (hjob : job ∈ jobRegistry)
    {run : SourceRun} {st st' : JobState} {items : List ScannedItem} (hst : Sees st.session)
    (hexists : (st.session.working.accounts.get? call.accountId).isSome = true)
    (h : items.foldlM (scanItem call region job run) st = .ok st') : Sees st'.session := by
  refine (Loop.keep (fun st : JobState => Sees st.session ∧
    (st.session.working.accounts.get? call.accountId).isSome = true) ?_ ⟨hst, hexists⟩ h).1
  rintro item _ st₁ st₂ ⟨hst₁, hexists₁⟩ hitem
  refine ⟨scanItem_sees hjob hst₁ hexists₁ hitem, ?_⟩
  rw [accounts_of_loop (scanItem_loop hitem).1]
  exact hexists₁

/-! ## One job -/

theorem retireStaleResources_held (s : DbSession) (call : Call) (region : String) (job : ScanJob)
    (now : Micros) :
    Holds s.working
      (Resources.retireStaleResources s (scopeOf call region job) now).1.working := by
  let site : Retirement.Site := ⟨call.accountId, region, job⟩
  have hsweep : (Resources.retireStaleResources s (scopeOf call region job) now).1.working =
      Retirement.sweep site now s.working := Retirement.retireStaleResources_working _ _ _
  rw [hsweep]
  refine ⟨fun id r hr => ?_, fun _ h => h⟩
  obtain ⟨hmem, rfl⟩ := Table.get?_eq_some.1 hr
  obtain ⟨r', hr', hsame, _⟩ := Retirement.sweep_kept site now hmem
  exact ⟨r', Table.get?_eq_some.2 ⟨hr', hsame.id⟩,
    congrArg Resources.NaturalKey.accountId hsame.key,
    congrArg Resources.NaturalKey.region hsame.key⟩

theorem finishJob_sees {call : Call} {region : String} {plan : JobPlan} {run : SourceRun}
    {st : JobState} {error : Option String} (hst : Sees st.session) :
    Sees (finishJob call region plan run st error).state.session := by
  simp only [finishJob]
  have hfinished : Sees (SourceRuns.finishRun st.session run.id
      (SourceRuns.jobStatus error.isNone error) (some st.resources) error
      plan.script.finishedAt) := by
    simp only [SourceRuns.finishRun]
    split
    · exact hst
    · exact hst.aside (WritesOnly.write _ rfl)
  split
  · have hworking := Retirement.retireStaleResources_working (SourceRuns.finishRun st.session run.id
      (SourceRuns.jobStatus error.isNone error) (some st.resources) error plan.script.finishedAt)
      (scopeOf call region plan.job) plan.script.retiredAt
    refine hfinished.writes (Session.writes_committed _ _) (hfinished.working.held
      (retireStaleResources_held _ _ _ _ _) ?_ ?_) <;> rw [hworking]
  · exact hfinished

theorem isAside_of_isAbort (w : Write) (h : isAbort w = true) : isAside w = true := by
  cases w <;> first | rfl | cases h

theorem runRegionJob_sees {call : Call} {region : String} {s : DbSession} {fresh : Uuid}
    {plan : JobPlan} {out : JobOutcome} (hjob : plan.job ∈ jobRegistry) (hs : Sees s)
    (h : runRegionJob SourceRuns.startRun call region s fresh plan = .ok out) :
    Sees out.state.session := by
  obtain ⟨ws, hws, _, hcases⟩ := startRun_cases s (scopeOf call region plan.job) call.force
    call.jobId plan.script.startedAt plan.script.contended
  have haborted : Sees (s.writes ws) :=
    hs.aside ⟨ws, fun w hw => isAside_of_isAbort w (hws w hw), rfl⟩
  rcases hcases with ⟨_, run, _, hstart, _⟩ | ⟨_, hstart, _⟩
  · have hstarted : Sees ((s.writes ws).write (.sourceRun run)) :=
      haborted.aside (WritesOnly.write _ rfl)
    have hexists := (startRun_begun hstart).2.2.1
    simp only [runRegionJob, hstart, runScan] at h
    split at h
    · cases h
    · rename_i st hst
      split at h
      · cases h
      · cases h
        exact finishJob_sees (scanItems_sees hjob hstarted hexists hst)
  · simp only [runRegionJob, hstart] at h
    cases h
    exact haborted.rollback

/-! ## One call -/

theorem correlated_source {call : Call} {itemsByJob : Dict String (List Ec2.Item)} {now : Micros} :
    ∀ f ∈ correlated call itemsByJob now, f.source ≠ Rds.sourceName := by
  have hother : Ec2.sourceName ≠ Rds.sourceName := by decide
  intro f hf
  simp only [correlated, Ec2.correlationFacts] at hf
  split at hf
  · cases hf
  · rcases List.mem_append.1 hf with hf | hf <;> obtain ⟨item, _, rfl⟩ := List.mem_map.1 hf <;>
      exact hother

theorem correlate_sees {call : Call} {now : Micros} {rs : RegionState} {c : CollectState}
    (hrs : Sees rs.collect.session) (h : correlate call now rs = .ok c) : Sees c.session := by
  simp only [correlate] at h
  split at h
  · cases h
    exact hrs
  · split at h
    · cases h
    · rename_i s inserted updated hfacts
      cases h
      have hs := (Facts.upsertFacts_cases hfacts).1
      have hcommitted : s.committed = rs.collect.session.committed := by
        rw [hs, Session.writes_committed]
      refine hrs.writes hcommitted ?_
      rw [Facts.upsertFacts_working hfacts]
      exact hrs.working.upserted_other correlated_source

theorem collectRegion_sees {call : Call} {max : Int} {plan : RegionPlan} {c c' : CollectState}
    (hjobs : ∀ jp ∈ plan.jobs, jp.job ∈ jobRegistry) (hc : Sees c.session)
    (h : collectRegion SourceRuns.startRun call max c plan = .ok c') : Sees c'.session := by
  rcases collectRegion_cases h with ⟨_, rfl⟩ | ⟨_, rs, c₁, hrs, hc₁, rfl⟩
  · exact hc
  · have hend : Sees rs.collect.session := by
      refine Loop.keep (fun rs : RegionState => Sees rs.collect.session) ?_ hc hrs
      intro jp hjp rs₁ rs₂ hrs₁ hrun
      simp only [runJob] at hrun
      split at hrun
      · cases hrun
      · rename_i out hout
        cases hrun
        rw [addOutcome_session]
        exact runRegionJob_sees (hjobs jp hjp) hrs₁ hout
    have hcorrelated : Sees c₁.session := correlate_sees hend hc₁
    exact hcorrelated

theorem getOrCreate_sees {s s' : DbSession} {externalId : String} {name : Option String}
    {account : Account} (hs : Sees s)
    (h : Accounts.getOrCreate s externalId name = .ok (s', account)) : Sees s' := by
  simp only [Accounts.getOrCreate] at h
  split at h
  · cases h
  · cases h
    exact hs
  · cases h
    exact hs.writes rfl (hs.working.held (Holds.put_account _ _) rfl rfl)

theorem conclude_sees {target : TargetAccount} {options : Options} {regions : Nat}
    {c : CollectState} (hc : Sees c.session) : Sees (conclude target options regions c) := by
  have haside : ∀ w, isEnding w = true → isAside w = true := fun w hw => by
    cases w <;> first | rfl | cases hw
  rcases conclude_wrote target options regions c with ⟨_, hsame⟩ | ⟨_, s, hw, hcommit⟩
  · rw [hsame]
    exact hc
  · have hend := hc.aside (hw.mono haside).writesOnly
    rw [hcommit]
    exact ⟨hend.working, hend.working⟩

theorem collectStep_faithful (target : TargetAccount) (options : Options) (world : World)
    {t : Store} (h : Faithful t) : Faithful (collectStep target options world t) := by
  simp only [collectStep]
  split
  · exact h
  · rename_i s result hcall
    obtain ⟨jobs, s₀, account, c, hjobs, _, haccount, hfold, hout⟩ := collectTargetWith_ok hcall
    cases hout
    have hplans : ∀ plan ∈ planOf world jobs (regionsOf target),
        ∀ jp ∈ plan.jobs, jp.job ∈ jobRegistry := planOf_registry (resolveJobs_registry hjobs)
    have hstart : Sees s₀ := getOrCreate_sees ⟨h, h⟩ haccount
    have hend : Sees c.session := Loop.keep (fun c : CollectState => Sees c.session)
      (fun plan hplan c₁ c₂ hc₁ hregion => collectRegion_sees (hplans plan hplan) hc₁ hregion)
      hstart hfold
    exact (conclude_sees hend).committed

/-! ## A history of scans -/

structure ScanCall where
  target : TargetAccount
  options : Options
  world : World

def history (calls : List ScanCall) (t : Store) : Store :=
  calls.foldl (fun t call => collectStep call.target call.options call.world t) t

theorem faithful_history (calls : List ScanCall) {t : Store} (h : Faithful t) :
    Faithful (history calls t) := by
  induction calls generalizing t with
  | nil => exact h
  | cons call calls ih => exact ih (collectStep_faithful _ _ _ h)

end ReplayFacts

end Constat
