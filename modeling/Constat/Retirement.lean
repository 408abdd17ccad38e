import Constat.SourceRunHistory
import Constat.Correlation

/-!
# Retirement

The resources of one scope over whole histories of its collect runs: complete scans, scans that
fail after some items, starts that are lost, and runs whose worker dies before it finishes them and
that a later start force-aborts. Every run is a session of its own.

* `State` — the store, the clock, and beside them what AWS yielded to each successful run.
* `Sound` — a retired resource was missed by the two most recent successful runs, what either of
  them yielded is active, and no natural key has two rows.
* `SameRows` — a run keeps the rows: a resource that is seen again is the row it was, un-retired,
  and a run without success retires nothing.
* `retirement_sound` — under a monotone clock, every state is sound and every run keeps the rows.
-/

namespace Constat

open Collector

namespace Retirement

/-! ## Histories of one scope -/

structure Site where
  accountId : Uuid
  region : String
  job : ScanJob

namespace Site

def scope (site : Site) : Scope where
  accountId := site.accountId
  region := site.region
  resourceType := site.job.resourceType
  source := site.job.source

def key (site : Site) (nativeId : String) : Resources.NaturalKey where
  accountId := site.accountId
  region := site.region
  resourceType := site.job.resourceType
  nativeId := nativeId

/-- The resource is one of the scope. -/
def Covers (site : Site) (r : Resource) : Prop := Resources.keyOf r = site.key r.nativeId

end Site

theorem Site.nativeId_of_key {site : Site} {r : Resource} {id : String}
    (h : Resources.keyOf r = site.key id) : r.nativeId = id :=
  congrArg Resources.NaturalKey.nativeId h

theorem Site.covers_of_key {site : Site} {r : Resource} {id : String}
    (h : Resources.keyOf r = site.key id) : site.Covers r := by
  rw [Covers, nativeId_of_key h, h]

/-- How a run is asked for, and what AWS and the clock answer. -/
structure Run where
  dryRun : Bool
  force : Bool
  jobId : Option Uuid
  script : JobScript

def Run.call (run : Run) (site : Site) : Call :=
  ⟨site.accountId, run.dryRun, run.force, run.jobId⟩

/-- A run of `_run_region_job` to its end; or one whose items are committed and whose worker then
dies, so that its row stays running. -/
inductive Event where
  | collect (run : Run)
  | abandon (run : Run)

def Event.run : Event → Run
  | .collect run => run
  | .abandon run => run

/-- The native id of an item, if it has one. -/
def nativeId (site : Site) (raw : Raw) : Option String :=
  (nativeIdForJob site.job.key (Collectors.tagRegion site.region raw)).toOption

/-- The native ids the scan of a run yields. -/
def yielded (site : Site) (script : JobScript) : List String :=
  script.items.filterMap fun item => nativeId site item.raw

/-- The outcome of a run whose session is committed: a dry run's is not, and neither is one that an
exception ended. -/
def collected (site : Site) (run : Run) (t : Store) : Option JobOutcome :=
  match runRegionJob SourceRuns.startRun (run.call site) site.region (Session.begin t)
      t.resources.next ⟨site.job, run.script⟩ with
  | .ok out => if run.dryRun then none else some out
  | .error _ => none

/-- The same of a run that is abandoned after its last item. -/
def abandoned (site : Site) (run : Run) (t : Store) : Option JobState :=
  match SourceRuns.startRun (Session.begin t) (scopeOf (run.call site) site.region site.job)
      run.force run.jobId run.script.startedAt run.script.contended with
  | (_, none) => none
  | (s, some row) =>
    match run.script.items.foldlM (scanItem (run.call site) site.region site.job row)
        (.start s t.resources.next) with
    | .ok st => if run.dryRun then none else some st
    | .error _ => none

/-- A successful run: when it started, and the native ids that its scan yielded. -/
structure Scan where
  startedAt : Micros
  ids : List String

/-- `scans` are the successful runs, the most recent one first. -/
structure State where
  store : Store
  clock : Micros
  scans : List Scan

def after (site : Site) (s : State) : Event → Option (Store × Option Scan)
  | .collect run => (collected site run s.store).map fun out =>
    (out.state.session.commit.close,
      if out.error.isNone then some ⟨run.script.startedAt, yielded site run.script⟩ else none)
  | .abandon run => (abandoned site run s.store).map fun st => (st.session.commit.close, none)

def step (site : Site) (s : State) (e : Event) : State :=
  match after site s e with
  | none => { s with clock := e.run.script.retiredAt }
  | some (t, scan) => ⟨t, e.run.script.retiredAt, scan.toList ++ s.scans⟩

def start (t : Store) (clock : Micros) : State := ⟨t, clock, []⟩

/-- The times a run reads, in the order it reads them. -/
def times (script : JobScript) : List Micros :=
  script.startedAt :: script.items.map (·.seenAt) ++ [script.finishedAt, script.retiredAt]

/-- The clock does not go back. -/
def OnClock (s : State) (e : Event) : Prop :=
  (s.clock :: times e.run.script).Pairwise (· ≤ ·)

/-- The scope has not been scanned yet. -/
structure Unscanned (site : Site) (t : Store) : Prop where
  resources : ∀ r ∈ t.resources, ¬ site.Covers r
  runs : ∀ r ∈ t.sourceRuns, r.scope ≠ site.scope

/-! ## The laws -/

structure Sound (site : Site) (s : State) : Prop where
  retired : ∀ r ∈ s.store.resources, site.Covers r → r.retiredAt ≠ none →
    ∃ last previous rest, s.scans = last :: previous :: rest ∧
      r.nativeId ∉ last.ids ∧ r.nativeId ∉ previous.ids
  active : ∀ scan ∈ s.scans.take 2, ∀ id ∈ scan.ids, ∃ r ∈ s.store.resources,
    Resources.keyOf r = site.key id ∧ r.retiredAt = none
  single : ∀ r ∈ s.store.resources, ∀ r' ∈ s.store.resources, site.Covers r →
    Resources.keyOf r = Resources.keyOf r' → r = r'

/-- `r'` is the row `r`, as a later run leaves it. -/
structure SameRow (r r' : Resource) : Prop where
  id : r'.id = r.id
  key : Resources.keyOf r' = Resources.keyOf r
  firstSeenAt : r'.firstSeenAt = r.firstSeenAt
  lastSeenAt : r.lastSeenAt ≤ r'.lastSeenAt

/-- The native ids of the items a run has upserted and committed. -/
def seen (site : Site) (s : State) : Event → List String
  | .collect run => ((collected site run s.store).elim [] fun out => out.state.items).filterMap
    fun p => (nativeIdForJob site.job.key p.2).toOption
  | .abandon run => ((abandoned site run s.store).elim [] fun st => st.items).filterMap
    fun p => (nativeIdForJob site.job.key p.2).toOption

structure SameRows (site : Site) (s : State) (e : Event) : Prop where
  kept : ∀ r ∈ s.store.resources, ∃ r' ∈ (step site s e).store.resources, SameRow r r'
  reappears : ∀ r ∈ s.store.resources, site.Covers r → r.nativeId ∈ seen site s e →
    ∃ r' ∈ (step site s e).store.resources, SameRow r r' ∧ r'.retiredAt = none
  quiet : (step site s e).scans = s.scans → ∀ r' ∈ (step site s e).store.resources,
    site.Covers r' → r'.retiredAt ≠ none → r' ∈ s.store.resources

namespace SameRow

theorem refl (r : Resource) : SameRow r r := ⟨rfl, rfl, rfl, Int.le_refl _⟩

theorem trans {r r' r'' : Resource} (h : SameRow r r') (h' : SameRow r' r'') : SameRow r r'' where
  id := h'.id.trans h.id
  key := h'.key.trans h.key
  firstSeenAt := h'.firstSeenAt.trans h.firstSeenAt
  lastSeenAt := Int.le_trans h.lastSeenAt h'.lastSeenAt

end SameRow

/-! ## The rows a scan writes -/

/-- What an upsert writes: the row of its key, seen now, or a row of a key that had none. -/
theorem upsertResource_spec {s s' : DbSession} {key : Resources.NaturalKey} {now : Micros}
    {fresh : Uuid} {r : Resource} (h : Resources.upsertResource s key now fresh = .ok (s', r)) :
    s' = s.write (.resource r) ∧ Resources.keyOf r = key ∧ r.retiredAt = none ∧
      r.lastSeenAt = now ∧
      ((∃ r₀ ∈ s.working.resources, Resources.keyOf r₀ = key ∧ r = Resources.seen r₀ now) ∨
        ∀ y ∈ s.working.resources, Resources.keyOf y ≠ key ∧ y.id ≠ r.id) := by
  simp only [Resources.upsertResource] at h
  split at h
  · cases h
  · rename_i r₀ hget
    cases h
    have hmem : r₀ ∈ s.working.resources.rows.filter fun r => Resources.keyOf r = key :=
      eq_singleton_of_scalarOneOrNone hget ▸ List.mem_singleton_self r₀
    obtain ⟨hr₀, hkey⟩ := List.mem_filter.1 hmem
    have hkey : Resources.keyOf r₀ = key := of_decide_eq_true hkey
    exact ⟨rfl, hkey, rfl, rfl, .inl ⟨r₀, hr₀, hkey, rfl⟩⟩
  · rename_i hget
    cases h
    refine ⟨rfl, rfl, rfl, rfl, .inr fun y hy => ⟨fun hkey => ?_, ?_⟩⟩
    · have hmem : y ∈ s.working.resources.rows.filter fun r => Resources.keyOf r = key :=
        List.mem_filter.2 ⟨hy, decide_eq_true hkey⟩
      rw [eq_nil_of_scalarOneOrNone hget] at hmem
      cases hmem
    · have hlt := s.working.resources.lt_next y hy
      have hle : s.working.resources.next ≤ max fresh s.working.resources.next :=
        Nat.le_max_right _ _
      exact Nat.ne_of_lt (Nat.lt_of_lt_of_le hlt hle)

/-- The observation and the facts of an item are not resources. -/
theorem describeItem_frame {call : Call} {job : ScanJob} {run : SourceRun} {st st' : JobState}
    {id : Uuid} {raw : Raw} {observedAt : Micros}
    (h : describeItem call job run st id raw observedAt = .ok st') :
    st'.session.working.resources = st.session.working.resources ∧ st'.items = st.items := by
  simp only [describeItem] at h
  split at h
  · cases h
    exact ⟨rfl, rfl⟩
  · split at h
    · cases h
    · rename_i s inserted updated hfacts
      cases h
      obtain ⟨rows, rfl, _⟩ := upsertFacts_rows hfacts
      refine ⟨?_, rfl⟩
      have hrows : Session.WritesOnly isFact
          (Observations.insertObservation st.session (job.observation id raw observedAt)
            (some run.id))
          ((Observations.insertObservation st.session (job.observation id raw observedAt)
            (some run.id)).writes (rows.map .fact)) := by
        refine ⟨rows.map .fact, fun w hw => ?_, rfl⟩
        obtain ⟨row, _, rfl⟩ := List.mem_map.1 hw
        rfl
      exact hrows.frame Store.resources fun w hw t => by cases w <;> first | rfl | cases hw

/-- A row the run has upserted: active, and seen since the run started. -/
def Fresh (startedAt : Micros) (r : Resource) : Prop :=
  r.retiredAt = none ∧ startedAt ≤ r.lastSeenAt

/-- A run that started at `startedAt` has upserted its items so far, the last one at `clock`. -/
structure Upserted (site : Site) (startedAt : Micros) (before : Table Resource.id)
    (clock : Micros) (st : JobState) : Prop where
  kept : ∀ r ∈ before, ∃ r' ∈ st.session.working.resources, SameRow r r' ∧
    (r' = r ∨ Fresh startedAt r')
  came : ∀ r' ∈ st.session.working.resources, r' ∈ before ∨ Fresh startedAt r'
  items : ∀ p ∈ st.items, ∀ id, nativeIdForJob site.job.key p.2 = .ok id →
    ∃ r ∈ st.session.working.resources, Resources.keyOf r = site.key id ∧ Fresh startedAt r
  single : ∀ r ∈ st.session.working.resources, ∀ r' ∈ st.session.working.resources,
    site.Covers r → Resources.keyOf r = Resources.keyOf r' → r = r'
  lastSeen : ∀ r ∈ st.session.working.resources, site.Covers r → r.lastSeenAt ≤ clock
  started : startedAt ≤ clock

/-- `r` is the row that an upsert at the instant `now` leaves under the key of `native`. -/
structure Touched (site : Site) (rows : Table Resource.id) (native : String) (now : Micros)
    (r : Resource) : Prop where
  key : Resources.keyOf r = site.key native
  active : r.retiredAt = none
  lastSeen : r.lastSeenAt = now
  origin : (∃ r₀ ∈ rows, Resources.keyOf r₀ = site.key native ∧ r = Resources.seen r₀ now) ∨
    ∀ y ∈ rows, Resources.keyOf y ≠ site.key native ∧ y.id ≠ r.id

/-- The row that an upsert replaces is the one of its key. -/
theorem Upserted.replaced {site : Site} {startedAt clock now : Micros}
    {before : Table Resource.id} {st : JobState} {native : String} {r : Resource}
    (h : Upserted site startedAt before clock st) (hclock : clock ≤ now)
    (hr : Touched site st.session.working.resources native now r) :
    ∀ y ∈ st.session.working.resources, y.id = r.id → SameRow y r := by
  intro y hy hid
  rcases hr.origin with ⟨r₀, hr₀, hr₀key, rfl⟩ | hnone
  · rw [Table.eq_of_key hy hr₀ hid]
    have hcovers : site.Covers r₀ := Site.covers_of_key hr₀key
    exact ⟨rfl, rfl, rfl, Int.le_trans (h.lastSeen r₀ hr₀ hcovers) hclock⟩
  · exact absurd hid (hnone y hy).2

/-- No other row of the scope has the key of an upsert. -/
theorem Upserted.others {site : Site} {startedAt clock now : Micros}
    {before : Table Resource.id} {st : JobState} {native : String} {r : Resource}
    (h : Upserted site startedAt before clock st)
    (hr : Touched site st.session.working.resources native now r) :
    ∀ y ∈ st.session.working.resources, y.id ≠ r.id → site.Covers y →
      Resources.keyOf y ≠ Resources.keyOf r := by
  intro y hy hid hcovers hsame
  rcases hr.origin with ⟨r₀, hr₀, _, rfl⟩ | hnone
  · have hy₀ : y = r₀ := h.single y hy r₀ hr₀ hcovers hsame
    have hid₀ : y.id = r₀.id := congrArg Resource.id hy₀
    exact hid hid₀
  · exact (hnone y hy).1 (hsame.trans hr.key)

theorem Upserted.put {site : Site} {startedAt clock now : Micros} {before : Table Resource.id}
    {st st' : JobState} {native : String} {r : Resource} {item : Uuid × Raw}
    (h : Upserted site startedAt before clock st) (hclock : clock ≤ now)
    (hr : Touched site st.session.working.resources native now r)
    (hput : st'.session.working.resources = st.session.working.resources.put r)
    (hnative : nativeIdForJob site.job.key item.2 = .ok native)
    (hitems : st'.items = st.items ++ [item]) :
    Upserted site startedAt before now st' := by
  have hfresh : Fresh startedAt r :=
    ⟨hr.active, hr.lastSeen ▸ Int.le_trans h.started hclock⟩
  have hcase : ∀ z ∈ st'.session.working.resources,
      z = r ∨ z ∈ st.session.working.resources ∧ z.id ≠ r.id := fun z hz => by
    rw [hput] at hz
    exact Table.mem_put.1 hz
  have hstays : ∀ y ∈ st.session.working.resources, ∃ z ∈ st'.session.working.resources,
      SameRow y z ∧ (z = y ∨ z = r) := by
    intro y hy
    rw [hput]
    by_cases hid : y.id = r.id
    · exact ⟨r, Table.mem_put_self _ _, h.replaced hclock hr y hy hid, .inr rfl⟩
    · exact ⟨y, Table.mem_put.2 (.inr ⟨hy, hid⟩), SameRow.refl y, .inl rfl⟩
  refine ⟨?_, ?_, ?_, ?_, ?_, Int.le_trans h.started hclock⟩
  · intro x hx
    obtain ⟨y, hy, hxy, hcasey⟩ := h.kept x hx
    obtain ⟨z, hz, hyz, rfl | rfl⟩ := hstays y hy
    · exact ⟨z, hz, hxy.trans hyz, hcasey⟩
    · exact ⟨z, hz, hxy.trans hyz, .inr hfresh⟩
  · intro z hz
    rcases hcase z hz with rfl | ⟨hz, _⟩
    · exact .inr hfresh
    · exact h.came z hz
  · intro p hp id hid
    rw [hitems] at hp
    rcases List.mem_append.1 hp with hp | hp
    · obtain ⟨y, hy, hykey, hyfresh⟩ := h.items p hp id hid
      obtain ⟨z, hz, hyz, rfl | rfl⟩ := hstays y hy
      · exact ⟨z, hz, hykey, hyfresh⟩
      · exact ⟨z, hz, hyz.key.trans hykey, hfresh⟩
    · rw [List.mem_singleton.1 hp, hnative] at hid
      cases hid
      have hrow : r ∈ st'.session.working.resources := by
        rw [hput]
        exact Table.mem_put_self _ _
      exact ⟨r, hrow, hr.key, hfresh⟩
  · intro z hz z' hz' hcovers hsame
    rcases hcase z hz with rfl | ⟨hz, hid⟩
    · rcases hcase z' hz' with rfl | ⟨hz', hid'⟩
      · rfl
      · have hcovers' : site.Covers z' := Site.covers_of_key (hsame.symm.trans hr.key)
        exact absurd hsame.symm (h.others hr z' hz' hid' hcovers')
    · rcases hcase z' hz' with rfl | ⟨hz', _⟩
      · exact absurd hsame (h.others hr z hz hid hcovers)
      · exact h.single z hz z' hz' hcovers hsame
  · intro z hz hcovers
    rcases hcase z hz with rfl | ⟨hz, _⟩
    · exact Int.le_of_eq hr.lastSeen
    · exact Int.le_trans (h.lastSeen z hz hcovers) hclock

theorem Upserted.scanItem {site : Site} {call : Call} {run : SourceRun} {startedAt clock : Micros}
    {before : Table Resource.id} {st st' : JobState} {item : ScannedItem}
    (hcall : call.accountId = site.accountId) (h : Upserted site startedAt before clock st)
    (hclock : clock ≤ item.seenAt)
    (hitem : scanItem call site.region site.job run st item = .ok st') :
    Upserted site startedAt before item.seenAt st' ∧
      ∃ id, st'.items = st.items ++ [(id, Collectors.tagRegion site.region item.raw)] := by
  simp only [Collector.scanItem] at hitem
  split at hitem
  · cases hitem
  · rename_i native hnative
    split at hitem
    · cases hitem
    · rename_i s r hupsert
      obtain ⟨rfl, hkey, hactive, hseen, hfrom⟩ := upsertResource_spec hupsert
      obtain ⟨hres, hitems⟩ := describeItem_frame hitem
      have hnatural : naturalKey call site.region site.job native = site.key native := by
        rw [naturalKey, hcall]
        rfl
      rw [hnatural] at hkey hfrom
      exact ⟨h.put hclock ⟨hkey, hactive, hseen, hfrom⟩ hres hnative hitems, r.id, hitems⟩

theorem Upserted.scanItems {site : Site} {call : Call} {run : SourceRun} {startedAt : Micros}
    {before : Table Resource.id} (hcall : call.accountId = site.accountId) :
    ∀ {items : List ScannedItem} {clock : Micros} {st st' : JobState},
      Upserted site startedAt before clock st →
      (clock :: items.map (·.seenAt)).Pairwise (· ≤ ·) →
      items.foldlM (Collector.scanItem call site.region site.job run) st = .ok st' →
      (∃ clock' ∈ clock :: items.map (·.seenAt), Upserted site startedAt before clock' st') ∧
        st'.items.map Prod.snd = st.items.map Prod.snd ++
          items.map fun item => Collectors.tagRegion site.region item.raw := by
  intro items
  induction items with
  | nil =>
    intro clock st st' h _ hloop
    cases hloop
    exact ⟨⟨clock, List.mem_singleton_self clock, h⟩, (List.append_nil _).symm⟩
  | cons item items ih =>
    intro clock st st' h hsorted hloop
    obtain ⟨st₁, hitem, hrest⟩ := Loop.foldlM_cons_ok.1 hloop
    rw [List.map_cons, List.pairwise_cons] at hsorted
    obtain ⟨h₁, id, hitems⟩ := h.scanItem hcall (hsorted.1 _ List.mem_cons_self) hitem
    obtain ⟨⟨clock', hclock', h'⟩, hall⟩ := ih h₁ hsorted.2 hrest
    refine ⟨⟨clock', List.mem_cons_of_mem _ hclock', h'⟩, ?_⟩
    rw [hall, hitems, List.map_append, List.append_assoc]
    rfl

/-! ## The runs of the scope -/

/-- When the successful runs of the scope started. -/
def successes (site : Site) (t : Store) : List Micros :=
  (SourceRuns.successfulRuns t site.scope).map (·.startedAt)

/-- The aborts of a forced start. -/
theorem forced_spec (s : DbSession) (scope : Scope) (force : Bool) (now : Micros) :
    ∃ s₁, (if force then SourceRuns.abortActiveRun s scope now else s) = s₁ ∧
      SourceRuns.Moved s.working.sourceRuns s₁.working.sourceRuns ∧
      s₁.working.resources = s.working.resources ∧ s₁.committed = s.committed := by
  cases force with
  | false => exact ⟨s, rfl, SourceRuns.Moved.refl _, rfl, rfl⟩
  | true =>
    exact ⟨SourceRuns.abortActiveRun s scope now, if_pos rfl,
      SourceRuns.abortActiveRun_moved s scope now, by rw [SourceRuns.abortActiveRun_working],
      Session.writes_committed _ _⟩

theorem startRun_none {s s' : DbSession} {scope : Scope} {force contended : Bool}
    {jobId : Option Uuid} {now : Micros}
    (h : SourceRuns.startRun s scope force jobId now contended = (s', none)) :
    s'.working = s.committed := by
  obtain ⟨s₁, hs₁, _, _, hcommitted⟩ := forced_spec s scope force now
  simp only [SourceRuns.startRun, hs₁] at h
  split at h
  · cases h
  · cases h
    exact hcommitted

theorem startRun_some {s s' : DbSession} {scope : Scope} {force contended : Bool}
    {jobId : Option Uuid} {now : Micros} {run : SourceRun}
    (h : SourceRuns.startRun s scope force jobId now contended = (s', some run)) :
    ∃ s₁ : DbSession, SourceRuns.Moved s.working.sourceRuns s₁.working.sourceRuns ∧
      s₁.working.resources = s.working.resources ∧
      run = SourceRuns.newRun s₁.working scope jobId now ∧ s' = s₁.write (.sourceRun run) := by
  obtain ⟨s₁, hs₁, hmoved, hres, _⟩ := forced_spec s scope force now
  simp only [SourceRuns.startRun, hs₁] at h
  split at h
  · cases h
    exact ⟨s₁, hmoved, hres, rfl, rfl⟩
  · cases h

theorem mem_successfulRuns {t : Store} {scope : Scope} {r : SourceRun} :
    r ∈ SourceRuns.successfulRuns t scope ↔
      r ∈ t.sourceRuns ∧ r.scope = scope ∧ r.status = .success := by
  rw [SourceRuns.successfulRuns, List.mem_filter, decide_eq_true_eq]
  rfl

theorem nodup_successfulRuns (t : Store) (scope : Scope) :
    (SourceRuns.successfulRuns t scope).Nodup :=
  List.Nodup.of_map SourceRun.id (t.sourceRuns.nodup_filter _)

/-- A run that is started, and maybe finished as `done`, adds itself if it succeeded; the aborts of
other runs count for nothing. -/
theorem successes_started {site : Site} {t t' : Store} {t₁ : Table SourceRun.id}
    {done : SourceRun} (hmoved : SourceRuns.Moved t.sourceRuns t₁) (hid : done.id = t₁.next)
    (hscope : done.scope = site.scope) (hself : done ∈ t'.sourceRuns)
    (hrest : ∀ r, r ≠ done → (r ∈ t'.sourceRuns ↔ r ∈ t₁)) :
    (successes site t').Perm
      ((if done.status = .success then [done.startedAt] else []) ++ successes site t) := by
  have hfresh : ∀ r ∈ t.sourceRuns, r.id ≠ done.id := by
    intro r hr
    obtain ⟨r', hr', hid', _⟩ := hmoved.kept r hr
    rw [hid, ← hid']
    exact Table.fresh_next hr'
  -- apart from the run itself, aborting and finishing leave the successful rows alone
  have hother : ∀ r, r ≠ done → r.status = .success →
      (r ∈ t'.sourceRuns ↔ r ∈ t.sourceRuns) := by
    intro r hne hsuccess
    rw [hrest r hne]
    constructor
    · intro hr
      obtain ⟨r₀, hr₀, _, _, rfl | ⟨_, hfailed⟩⟩ := hmoved.came r hr
      · exact hr₀
      · rw [hsuccess] at hfailed
        cases hfailed
    · intro hr
      obtain ⟨r', hr', _, rfl | ⟨hrun, _⟩⟩ := hmoved.kept r hr
      · exact hr'
      · rw [hsuccess] at hrun
        cases hrun
  have hrows : (SourceRuns.successfulRuns t' site.scope).Perm
      ((if done.status = .success then [done] else []) ++
        SourceRuns.successfulRuns t site.scope) := by
    refine (List.perm_ext_iff_of_nodup (nodup_successfulRuns _ _) ?_).2 fun r => ?_
    · split
      · refine List.nodup_cons.2 ⟨fun hmem => ?_, nodup_successfulRuns _ _⟩
        exact hfresh done (mem_successfulRuns.1 hmem).1 rfl
      · exact nodup_successfulRuns _ _
    · rw [List.mem_append, mem_successfulRuns, mem_successfulRuns]
      by_cases hr : r = done
      · subst hr
        have hnot : r ∉ t.sourceRuns := fun hmem => hfresh r hmem rfl
        by_cases hsuccess : r.status = .success
        · simp [hself, hscope, hsuccess]
        · simp [hsuccess]
      · have hif : r ∉ (if done.status = .success then [done] else []) := by
          split <;> simp [hr]
        constructor
        · rintro ⟨hmem, hsc, hsuccess⟩
          exact .inr ⟨(hother r hr hsuccess).1 hmem, hsc, hsuccess⟩
        · rintro (hmem | ⟨hmem, hsc, hsuccess⟩)
          · exact absurd hmem hif
          · exact ⟨(hother r hr hsuccess).2 hmem, hsc, hsuccess⟩
  refine (hrows.map SourceRun.startedAt).trans (List.Perm.of_eq ?_)
  rw [List.map_append, successes]
  split <;> rfl

theorem recent_eq {site : Site} {t : Store} {times : List Micros}
    (hperm : (successes site t).Perm times) (hsorted : times.Pairwise (· ≥ ·)) (limit : Nat) :
    (SourceRuns.recentSuccessfulRuns t site.scope limit).map (·.startedAt) = times.take limit := by
  have hsort := List.map_insertionSort (r := fun a b : SourceRun => b.startedAt ≤ a.startedAt)
    (s := fun a b : Micros => b ≤ a) SourceRun.startedAt
    (SourceRuns.successfulRuns t site.scope) fun _ _ _ _ => Iff.rfl
  rw [SourceRuns.recentSuccessfulRuns, List.map_take, hsort]
  congr 1
  refine List.Perm.eq_of_pairwise (fun a b _ _ hab hba => Int.le_antisymm hba hab)
    (List.pairwise_insertionSort _ _) hsorted ?_
  exact (List.perm_insertionSort _ _).trans hperm

/-! ## The sweep -/

theorem foldl_applyWrite_resource (t : Store) (rs : List Resource) :
    (rs.map Write.resource).foldl applyWrite t = { t with resources := t.resources.putAll rs } := by
  induction rs generalizing t with
  | nil => rfl
  | cons r rs ih => rw [List.map_cons, List.foldl_cons, ih]; rfl

theorem retireStaleResources_working (s : DbSession) (scope : Scope) (now : Micros) :
    (Resources.retireStaleResources s scope now).1.working = { s.working with
      resources := s.working.resources.putAll
        ((Resources.staleResources s.working scope).map (Resources.retired now)) } := by
  have hws : ((Resources.staleResources s.working scope).map fun r =>
      Write.resource (Resources.retired now r)) =
      ((Resources.staleResources s.working scope).map (Resources.retired now)).map .resource := by
    rw [List.map_map]
    rfl
  rw [← foldl_applyWrite_resource, ← hws]
  exact Session.writes_working _ _

/-- The sweep's query: the active resources of the scope, last seen before both of the two most
recent successful runs started. -/
theorem staleResources_eq (t : Store) (scope : Scope) :
    ∃ q : Resource → Bool, Resources.staleResources t scope = t.resources.rows.filter q ∧
      ∀ r, q r = true ↔ (r.accountId = scope.accountId ∧ r.region = scope.region ∧
        r.resourceType = scope.resourceType ∧ r.retiredAt = none) ∧
        ∃ last previous, SourceRuns.recentSuccessfulRuns t scope 2 = [last, previous] ∧
          r.lastSeenAt < previous.startedAt := by
  have hlength : (SourceRuns.recentSuccessfulRuns t scope 2).length ≤ 2 := List.length_take_le _ _
  rw [Resources.staleResources, Resources.consecutiveScansForRetirement]
  generalize SourceRuns.recentSuccessfulRuns t scope 2 = runs at hlength
  rcases runs with _ | ⟨last, _ | ⟨previous, _ | ⟨_, rest⟩⟩⟩
  · exact ⟨fun _ => false, by simp, by simp⟩
  · exact ⟨fun _ => false, by simp, by simp⟩
  · refine ⟨_, rfl, fun r => ?_⟩
    simp [and_assoc]
  · simp at hlength

/-- A stale resource is one that the two most recent successful runs have both missed. -/
theorem mem_staleResources {site : Site} {t : Store} {times : List Micros}
    (hperm : (successes site t).Perm times) (hsorted : times.Pairwise (· ≥ ·)) {r : Resource} :
    r ∈ Resources.staleResources t site.scope ↔ r ∈ t.resources ∧ site.Covers r ∧
      r.retiredAt = none ∧ ∃ last previous rest, times = last :: previous :: rest ∧
        r.lastSeenAt < previous := by
  obtain ⟨q, hstale, hq⟩ := staleResources_eq t site.scope
  have hcovers : site.Covers r ↔ r.accountId = site.scope.accountId ∧
      r.region = site.scope.region ∧ r.resourceType = site.scope.resourceType := by
    simp [Site.Covers, Resources.keyOf, Site.key, Site.scope]
  have htwo := recent_eq hperm hsorted 2
  rw [hstale, List.mem_filter, hq, hcovers]
  constructor
  · rintro ⟨hr, ⟨h₁, h₂, h₃, hactive⟩, last, previous, hruns, hlt⟩
    refine ⟨hr, ⟨h₁, h₂, h₃⟩, hactive, last.startedAt, previous.startedAt, times.drop 2, ?_, hlt⟩
    rw [hruns] at htwo
    rw [← List.take_append_drop 2 times, ← htwo]
    simp
  · rintro ⟨hr, ⟨h₁, h₂, h₃⟩, hactive, last, previous, rest, rfl, hlt⟩
    rw [List.take_succ_cons, List.take_succ_cons, List.take_zero] at htwo
    obtain ⟨a, as, hruns, ha, has⟩ := List.map_eq_cons_iff.1 htwo
    obtain ⟨b, bs, rfl, hb, hbs⟩ := List.map_eq_cons_iff.1 has
    rw [List.map_eq_nil_iff.1 hbs] at hruns
    exact ⟨hr, ⟨h₁, h₂, h₃, hactive⟩, a, b, hruns, hb ▸ hlt⟩

theorem nodup_staleResources (t : Store) (scope : Scope) :
    ((Resources.staleResources t scope).map Resource.id).Nodup := by
  obtain ⟨q, hstale, _⟩ := staleResources_eq t scope
  rw [hstale]
  exact t.resources.nodup_filter q

/-! ## The invariant -/

structure Inv (site : Site) (s : State) : Prop where
  single : ∀ r ∈ s.store.resources, ∀ r' ∈ s.store.resources, site.Covers r →
    Resources.keyOf r = Resources.keyOf r' → r = r'
  lastSeen : ∀ r ∈ s.store.resources, site.Covers r → r.lastSeenAt ≤ s.clock
  runs : (successes site s.store).Perm (s.scans.map (·.startedAt))
  sorted : (s.scans.map (·.startedAt)).Pairwise (· ≥ ·)
  started : ∀ scan ∈ s.scans, scan.startedAt ≤ s.clock
  found : ∀ scan ∈ s.scans, ∀ id ∈ scan.ids, ∃ r ∈ s.store.resources,
    Resources.keyOf r = site.key id ∧ scan.startedAt ≤ r.lastSeenAt
  missed : ∀ r ∈ s.store.resources, site.Covers r → r.retiredAt ≠ none →
    ∃ last previous rest, s.scans = last :: previous :: rest ∧ r.lastSeenAt < previous.startedAt

theorem sound_of_inv {site : Site} {s : State} (h : Inv site s) : Sound site s := by
  have hyielded : ∀ r ∈ s.store.resources, site.Covers r → ∀ scan ∈ s.scans,
      r.nativeId ∈ scan.ids → scan.startedAt ≤ r.lastSeenAt := by
    intro r hr hcovers scan hscan hid
    obtain ⟨r', hr', hkey, hseen⟩ := h.found scan hscan r.nativeId hid
    rw [h.single r hr r' hr' hcovers (hcovers.trans hkey.symm)]
    exact hseen
  refine ⟨fun r hr hcovers hretired => ?_, fun scan hscan id hid => ?_, h.single⟩
  · obtain ⟨last, previous, rest, hscans, hlt⟩ := h.missed r hr hcovers hretired
    have hsorted := h.sorted
    rw [hscans, List.map_cons, List.map_cons, List.pairwise_cons] at hsorted
    have hle : previous.startedAt ≤ last.startedAt := hsorted.1 _ List.mem_cons_self
    have hmem : last ∈ s.scans ∧ previous ∈ s.scans := by simp [hscans]
    refine ⟨last, previous, rest, hscans, fun hid => ?_, fun hid => ?_⟩
    · exact Int.not_le.2 hlt (Int.le_trans hle (hyielded r hr hcovers last hmem.1 hid))
    · exact Int.not_le.2 hlt (hyielded r hr hcovers previous hmem.2 hid)
  · obtain ⟨r, hr, hkey, hseen⟩ := h.found scan (List.mem_of_mem_take hscan) id hid
    refine ⟨r, hr, hkey, ?_⟩
    by_contra hretired
    obtain ⟨last, previous, rest, hscans, hlt⟩ :=
      h.missed r hr (Site.covers_of_key hkey) hretired
    have hsorted := h.sorted
    rw [hscans, List.map_cons, List.map_cons, List.pairwise_cons] at hsorted
    have hle : previous.startedAt ≤ last.startedAt := hsorted.1 _ List.mem_cons_self
    rw [hscans] at hscan
    have hcase : scan = last ∨ scan = previous := by simpa using hscan
    rcases hcase with rfl | rfl
    · exact Int.not_le.2 hlt (Int.le_trans hle hseen)
    · exact Int.not_le.2 hlt hseen

/-- A run of which nothing is kept. -/
theorem Inv.idle {site : Site} {s : State} (h : Inv site s) {clock : Micros}
    (hclock : s.clock ≤ clock) : Inv site { s with clock := clock } where
  single := h.single
  lastSeen := fun r hr hcovers => Int.le_trans (h.lastSeen r hr hcovers) hclock
  runs := h.runs
  sorted := h.sorted
  started := fun scan hscan => Int.le_trans (h.started scan hscan) hclock
  found := h.found
  missed := h.missed

/-- The scan of a run is committed, without a sweep; `scan` is the run if it succeeded. -/
theorem Inv.scanned {site : Site} {s : State} (h : Inv site s) {startedAt clock clock' : Micros}
    {st : JobState} (hst : Upserted site startedAt s.store.resources clock' st) {t : Store}
    (hres : t.resources = st.session.working.resources) (hclock : clock' ≤ clock)
    (hstarted : s.clock ≤ startedAt) {scan : Option Scan}
    (hscan : ∀ x ∈ scan, x.startedAt = startedAt ∧ ∀ id ∈ x.ids, ∃ p ∈ st.items,
      nativeIdForJob site.job.key p.2 = .ok id)
    (hruns : (successes site t).Perm ((scan.toList.map (·.startedAt)) ++ successes site s.store)) :
    Inv site ⟨t, clock, scan.toList ++ s.scans⟩ := by
  have hnow : startedAt ≤ clock := Int.le_trans hst.started hclock
  refine ⟨?_, ?_, ?_, ?_, ?_, ?_, ?_⟩ <;> simp only [hres]
  · exact hst.single
  · exact fun r hr hcovers => Int.le_trans (hst.lastSeen r hr hcovers) hclock
  · rw [List.map_append]
    exact hruns.trans (h.runs.append_left _)
  · cases scan with
    | none => exact h.sorted
    | some x =>
      refine List.pairwise_cons.2 ⟨fun time htime => ?_, h.sorted⟩
      obtain ⟨y, hy, rfl⟩ := List.mem_map.1 htime
      have hx : x.startedAt = startedAt := (hscan x rfl).1
      exact (Int.le_trans (h.started y hy) hstarted).trans (Int.le_of_eq hx.symm)
  · intro y hy
    rcases List.mem_append.1 hy with hy | hy
    · rw [(hscan y (Option.mem_toList.1 hy)).1]
      exact hnow
    · exact Int.le_trans (h.started y hy) (Int.le_trans hstarted hnow)
  · intro y hy id hid
    rcases List.mem_append.1 hy with hy | hy
    · obtain ⟨hstart, hitems⟩ := hscan y (Option.mem_toList.1 hy)
      obtain ⟨p, hp, hnative⟩ := hitems id hid
      obtain ⟨r, hr, hkey, hfresh⟩ := hst.items p hp id hnative
      exact ⟨r, hr, hkey, hstart ▸ hfresh.2⟩
    · obtain ⟨r, hr, hkey, hseen⟩ := h.found y hy id hid
      obtain ⟨r', hr', hsame, _⟩ := hst.kept r hr
      exact ⟨r', hr', hsame.key.trans hkey, Int.le_trans hseen hsame.lastSeenAt⟩
  · intro r hr hcovers hretired
    rcases hst.came r hr with hr | hfresh
    · obtain ⟨last, previous, rest, hscans, hlt⟩ := h.missed r hr hcovers hretired
      cases scan with
      | none => exact ⟨last, previous, rest, hscans, hlt⟩
      | some x =>
        have hsorted := h.sorted
        rw [hscans, List.map_cons, List.map_cons, List.pairwise_cons] at hsorted
        have hle : previous.startedAt ≤ last.startedAt := hsorted.1 _ List.mem_cons_self
        refine ⟨x, last, previous :: rest, by rw [hscans]; rfl, Int.lt_of_lt_of_le hlt hle⟩
    · exact absurd hfresh.1 hretired

/-! ### The sweep of a successful run -/

def sweep (site : Site) (now : Micros) (t : Store) : Store :=
  { t with
    resources := t.resources.putAll
      ((Resources.staleResources t site.scope).map (Resources.retired now)) }

/-- The sweep retires the stale rows in place, and leaves the others as they are. -/
theorem mem_sweep {site : Site} {now : Micros} {t : Store} {r' : Resource} :
    r' ∈ (sweep site now t).resources ↔
      (∃ r ∈ Resources.staleResources t site.scope, r' = Resources.retired now r) ∨
        (r' ∈ t.resources ∧ r' ∉ Resources.staleResources t site.scope) := by
  have hids : ((Resources.staleResources t site.scope).map (Resources.retired now)).map
      Resource.id = (Resources.staleResources t site.scope).map Resource.id := by
    rw [List.map_map]
    rfl
  have hstale : ∀ r ∈ Resources.staleResources t site.scope, r ∈ t.resources := by
    obtain ⟨q, hq, _⟩ := staleResources_eq t site.scope
    rw [hq]
    exact fun r hr => List.mem_of_mem_filter hr
  rw [sweep, Table.mem_putAll (hids ▸ nodup_staleResources t site.scope)]
  refine or_congr ⟨fun h => ?_, fun ⟨r, hr, he⟩ => ?_⟩ (and_congr_right fun hr' => ?_)
  · obtain ⟨r, hr, rfl⟩ := List.mem_map.1 h
    exact ⟨r, hr, rfl⟩
  · exact List.mem_map.2 ⟨r, hr, he.symm⟩
  · constructor
    · exact fun h hmem => h _ (List.mem_map.2 ⟨r', hmem, rfl⟩) rfl
    · rintro hnot x hx hid
      obtain ⟨r, hr, rfl⟩ := List.mem_map.1 hx
      have hsame : r = r' := Table.eq_of_key (hstale r hr) hr' hid.symm
      exact hnot (hsame ▸ hr)

theorem sameRow_retired (now : Micros) (r : Resource) : SameRow r (Resources.retired now r) :=
  ⟨rfl, rfl, rfl, Int.le_refl _⟩

theorem sweep_kept (site : Site) (now : Micros) {t : Store} {r : Resource} (hr : r ∈ t.resources) :
    ∃ r' ∈ (sweep site now t).resources, SameRow r r' ∧
      (r ∉ Resources.staleResources t site.scope → r' = r) := by
  by_cases hstale : r ∈ Resources.staleResources t site.scope
  · exact ⟨_, mem_sweep.2 (.inl ⟨r, hstale, rfl⟩), sameRow_retired now r,
      fun h => absurd hstale h⟩
  · exact ⟨r, mem_sweep.2 (.inr ⟨hr, hstale⟩), SameRow.refl r, fun _ => rfl⟩

theorem Inv.swept {site : Site} {s : State} (h : Inv site s) (now : Micros) :
    Inv site { s with store := sweep site now s.store } := by
  have hstale := fun r => mem_staleResources (r := r) h.runs h.sorted
  have hcame : ∀ r' ∈ (sweep site now s.store).resources, ∃ r ∈ s.store.resources,
      r'.id = r.id ∧ Resources.keyOf r' = Resources.keyOf r ∧ r'.lastSeenAt = r.lastSeenAt ∧
        (r' = r ∨ r ∈ Resources.staleResources s.store site.scope) := by
    intro r' hr'
    rcases mem_sweep.1 hr' with ⟨r, hr, rfl⟩ | ⟨hr', _⟩
    · exact ⟨r, ((hstale r).1 hr).1, rfl, rfl, rfl, .inr hr⟩
    · exact ⟨r', hr', rfl, rfl, rfl, .inl rfl⟩
  have hcovers : ∀ {r r' : Resource}, Resources.keyOf r' = Resources.keyOf r → site.Covers r' →
      site.Covers r := fun hkey hc => Site.covers_of_key (hkey.symm.trans hc)
  refine ⟨fun x hx y hy hc hsame => ?_, fun x hx hc => ?_, h.runs, h.sorted, h.started,
    fun scan hscan id hid => ?_, fun x hx hc hretired => ?_⟩
  · obtain ⟨r, hr, hid, hkey, _⟩ := hcame x hx
    obtain ⟨r', hr', hid', hkey', _⟩ := hcame y hy
    have hrows : r = r' := h.single r hr r' hr' (hcovers hkey hc)
      (hkey.symm.trans (hsame.trans hkey'))
    exact Table.eq_of_key hx hy (hid.trans (hrows ▸ hid'.symm))
  · obtain ⟨r, hr, _, hkey, hseen, _⟩ := hcame x hx
    rw [hseen]
    exact h.lastSeen r hr (hcovers hkey hc)
  · obtain ⟨r, hr, hkey, hseen⟩ := h.found scan hscan id hid
    obtain ⟨r', hr', hsame, _⟩ := sweep_kept site now hr
    exact ⟨r', hr', hsame.key.trans hkey, Int.le_trans hseen hsame.lastSeenAt⟩
  · obtain ⟨r, hr, _, hkey, hseen, rfl | hmem⟩ := hcame x hx
    · exact h.missed x hr hc hretired
    · obtain ⟨_, _, _, last, previous, rest, htimes, hlt⟩ := (hstale r).1 hmem
      obtain ⟨a, as, hscans, _, has⟩ := List.map_eq_cons_iff.1 htimes
      obtain ⟨b, bs, rfl, hb, _⟩ := List.map_eq_cons_iff.1 has
      refine ⟨a, b, bs, hscans, ?_⟩
      rw [hseen]
      exact hb ▸ hlt

/-! ## One run -/

/-- A run is started, and has gone through the items of its scan. -/
structure Begun (site : Site) (run : Run) (t : Store) (row : SourceRun) (st : JobState) :
    Prop where
  upserted : ∃ clock ∈ run.script.startedAt :: run.script.items.map (·.seenAt),
    Upserted site run.script.startedAt t.resources clock st
  items : st.items.map Prod.snd =
    run.script.items.map fun item => Collectors.tagRegion site.region item.raw
  runs : ∃ t₁, SourceRuns.Moved t.sourceRuns t₁ ∧ row.id = t₁.next ∧
    st.session.working.sourceRuns = t₁.put row
  scope : row.scope = site.scope
  startedAt : row.startedAt = run.script.startedAt
  running : row.status = .running

theorem begun_of_start {site : Site} {s : State} (h : Inv site s) {run : Run}
    (hclock : (s.clock :: times run.script).Pairwise (· ≤ ·)) {s' : DbSession} {row : SourceRun}
    {st : JobState} {contended : Bool}
    (hstart : SourceRuns.startRun (Session.begin s.store)
      (scopeOf (run.call site) site.region site.job) run.force run.jobId run.script.startedAt
      contended = (s', some row))
    (hloop : run.script.items.foldlM (scanItem (run.call site) site.region site.job row)
      (.start s' s.store.resources.next) = .ok st) : Begun site run s.store row st := by
  obtain ⟨s₁, hmoved, hres, rfl, rfl⟩ := startRun_some hstart
  rw [times, List.cons_append, List.pairwise_cons] at hclock
  have hfirst : s.clock ≤ run.script.startedAt := hclock.1 _ List.mem_cons_self
  have hsorted : (run.script.startedAt :: run.script.items.map (·.seenAt)).Pairwise (· ≤ ·) :=
    hclock.2.sublist ((List.sublist_append_left _ _).cons_cons _)
  have hbefore : Upserted site run.script.startedAt s.store.resources run.script.startedAt
      (.start (s₁.write (.sourceRun (SourceRuns.newRun s₁.working
        (scopeOf (run.call site) site.region site.job) run.jobId run.script.startedAt)))
        s.store.resources.next) := by
    have hsame : (s₁.write (.sourceRun (SourceRuns.newRun s₁.working
        (scopeOf (run.call site) site.region site.job) run.jobId
        run.script.startedAt))).working.resources = s.store.resources := hres
    refine ⟨?_, ?_, fun p hp => (by cases hp), ?_, ?_, Int.le_refl _⟩ <;>
      simp only [JobState.start, hsame]
    · exact fun r hr => ⟨r, hr, SameRow.refl r, .inl rfl⟩
    · exact fun r hr => .inl hr
    · exact h.single
    · exact fun r hr hc => Int.le_trans (h.lastSeen r hr hc) hfirst
  obtain ⟨hupserted, hitems⟩ := hbefore.scanItems rfl hsorted hloop
  obtain ⟨_, hwrote, _⟩ := scanItems_scanned hloop
  exact ⟨hupserted, hitems, ⟨_, hmoved, rfl, hwrote.frame.2⟩, rfl, rfl, rfl⟩

/-- The run's row as `finish_run` leaves it. -/
def finishedRow (run : Run) (row : SourceRun) (st : JobState) (regionError : Option String) :
    SourceRun :=
  SourceRuns.finished row (SourceRuns.jobStatus regionError.isNone regionError)
    (some st.resources) regionError run.script.finishedAt

/-- The store with the run finished, before its sweep. -/
def unswept (run : Run) (row : SourceRun) (st : JobState) (regionError : Option String) : Store :=
  { st.session.working with
    sourceRuns := st.session.working.sourceRuns.put (finishedRow run row st regionError) }

theorem finishJob_working {site : Site} {run : Run} {row : SourceRun} {st : JobState}
    {regionError : Option String} (hdry : run.dryRun = false)
    (hget : st.session.working.sourceRuns.get? row.id = some row) :
    (finishJob (run.call site) site.region ⟨site.job, run.script⟩ row st
        regionError).state.session.working =
      if regionError.isNone then sweep site run.script.retiredAt (unswept run row st regionError)
      else unswept run row st regionError := by
  have hfinish : SourceRuns.finishRun st.session row.id
      (SourceRuns.jobStatus regionError.isNone regionError) (some st.resources) regionError
      run.script.finishedAt =
        st.session.write (.sourceRun (finishedRow run row st regionError)) :=
    SourceRuns.finishRun_eq hget _ _ _ _
  have hlive : (run.call site).dryRun = false := hdry
  simp only [finishJob, hfinish, hlive, Bool.not_false, Bool.and_true]
  split
  · exact retireStaleResources_working _ _ _
  · rfl

/-- How a run that is committed and not lost has gone: the items of its scan, and then nothing, if
it is abandoned, or the end of its run, with a sweep if it succeeded. -/
theorem collected_cases {site : Site} {s : State} (h : Inv site s) {run : Run}
    (hclock : (s.clock :: times run.script).Pairwise (· ≤ ·)) {out : JobOutcome}
    (hout : collected site run s.store = some out) :
    (out.state.session.working = s.store ∧ out.error.isNone = false ∧ out.state.items = []) ∨
      ∃ row st, Begun site run s.store row st ∧ out.state.items = st.items ∧
        yielded site run.script =
          st.items.filterMap (fun p => (nativeIdForJob site.job.key p.2).toOption) ∧
        out.state.session.working = if out.error.isNone then
          sweep site run.script.retiredAt (unswept run row st out.error)
        else unswept run row st out.error := by
  rw [collected] at hout
  split at hout
  · rename_i out' hrun
    split at hout
    · cases hout
    · rename_i hdry
      cases hout
      rw [runRegionJob] at hrun
      split at hrun
      · rename_i s' hstart
        cases hrun
        exact .inl ⟨startRun_none hstart, rfl, rfl⟩
      · rename_i s' row hstart
        rw [runScan] at hrun
        split at hrun
        · cases hrun
        · rename_i st hloop
          split at hrun
          · cases hrun
          · rename_i regionError hend
            cases hrun
            have hbegun := begun_of_start h hclock hstart hloop
            obtain ⟨t₁, _, hid, hruns⟩ := hbegun.runs
            have hget : st.session.working.sourceRuns.get? row.id = some row := by
              rw [hruns, Table.get?_eq_some]
              exact ⟨Table.mem_put_self _ _, rfl⟩
            refine .inr ⟨row, st, hbegun, rfl, ?_,
              finishJob_working (Bool.eq_false_iff.2 hdry) hget⟩
            have hraws := congrArg (List.filterMap fun raw =>
              (nativeIdForJob site.job.key raw).toOption) hbegun.items
            rw [List.filterMap_map, List.filterMap_map] at hraws
            exact hraws.symm
  · cases hout

theorem abandoned_cases {site : Site} {s : State} (h : Inv site s) {run : Run}
    (hclock : (s.clock :: times run.script).Pairwise (· ≤ ·)) {st : JobState}
    (hout : abandoned site run s.store = some st) : ∃ row, Begun site run s.store row st := by
  rw [abandoned] at hout
  split at hout
  · cases hout
  · rename_i s' row hstart
    split at hout
    · rename_i st' hloop
      split at hout
      · cases hout
      · cases hout
        exact ⟨row, begun_of_start h hclock hstart hloop⟩
    · cases hout

theorem times_bounds {clock : Micros} {script : JobScript}
    (h : (clock :: times script).Pairwise (· ≤ ·)) :
    clock ≤ script.startedAt ∧ clock ≤ script.retiredAt ∧
      ∀ t ∈ script.startedAt :: script.items.map (·.seenAt), t ≤ script.retiredAt := by
  rw [times, List.pairwise_cons, List.pairwise_append] at h
  exact ⟨h.1 _ List.mem_cons_self, h.1 _ (by simp), fun t ht => h.2.2.2 t ht _ (by simp)⟩

theorem eq_ok_of_toOption {ε α : Type} {e : Except ε α} {a : α} (h : e.toOption = some a) :
    e = .ok a := by
  cases e with
  | error e => cases h
  | ok b => exact congrArg Except.ok (Option.some.inj h)

/-- What a run has upserted keeps the rows, and what comes after it leaves them where they are. -/
theorem sameRows_of_begun {site : Site} {s : State} {e : Event} {row : SourceRun} {st : JobState}
    (hbegun : Begun site e.run s.store row st)
    (hseen : seen site s e =
      st.items.filterMap fun p => (nativeIdForJob site.job.key p.2).toOption)
    (hfinal : ∀ r ∈ st.session.working.resources, ∃ r' ∈ (step site s e).store.resources,
      SameRow r r' ∧ (Fresh e.run.script.startedAt r → r' = r))
    (hquiet : (step site s e).scans = s.scans → ∀ r ∈ (step site s e).store.resources,
      r ∈ st.session.working.resources) : SameRows site s e := by
  obtain ⟨clock, _, hst⟩ := hbegun.upserted
  refine ⟨fun r hr => ?_, fun r hr hcovers hid => ?_, fun hscans r hr hcovers hretired => ?_⟩
  · obtain ⟨r₁, hr₁, hsame, _⟩ := hst.kept r hr
    obtain ⟨r₂, hr₂, hsame', _⟩ := hfinal r₁ hr₁
    exact ⟨r₂, hr₂, hsame.trans hsame'⟩
  · rw [hseen] at hid
    obtain ⟨p, hp, hnative⟩ := List.mem_filterMap.1 hid
    obtain ⟨r₁, hr₁, hkey, hfresh⟩ := hst.items p hp _ (eq_ok_of_toOption hnative)
    obtain ⟨r₂, hr₂, hsame, _⟩ := hst.kept r hr
    have hone : r₁ = r₂ := hst.single r₁ hr₁ r₂ hr₂ (Site.covers_of_key hkey)
      (hkey.trans (hcovers.symm.trans hsame.key.symm))
    subst hone
    obtain ⟨r₃, hr₃, _, hstays⟩ := hfinal r₁ hr₁
    rw [hstays hfresh] at hr₃
    exact ⟨r₁, hr₃, hsame, hfresh.1⟩
  · rcases hst.came r (hquiet hscans r hr) with hold | hfresh
    · exact hold
    · exact absurd hfresh.1 hretired

/-- A run of which nothing is kept changes no row. -/
theorem sameRows_idle {site : Site} {s : State} {e : Event}
    (hstore : (step site s e).store = s.store) (hseen : seen site s e = []) :
    SameRows site s e := by
  refine ⟨fun r hr => ⟨r, hstore ▸ hr, SameRow.refl r⟩, fun r _ _ hid => ?_,
    fun _ r hr _ _ => hstore ▸ hr⟩
  rw [hseen] at hid
  cases hid

theorem step_abandon {site : Site} {s : State} (h : Inv site s) {run : Run}
    (hclock : OnClock s (.abandon run)) :
    Inv site (step site s (.abandon run)) ∧ SameRows site s (.abandon run) := by
  obtain ⟨hstarted, hlate, hbounds⟩ := times_bounds hclock
  cases hout : abandoned site run s.store with
  | none =>
    have hstep : step site s (.abandon run) = { s with clock := run.script.retiredAt } := by
      simp [step, after, hout, Event.run]
    exact ⟨hstep ▸ h.idle hlate, sameRows_idle (by rw [hstep]) (by simp [seen, hout])⟩
  | some st =>
    have hstep : step site s (.abandon run) =
        ⟨st.session.working, run.script.retiredAt, s.scans⟩ := by
      simp [step, after, hout, Event.run, Session.close]
    obtain ⟨row, hbegun⟩ := abandoned_cases h hclock hout
    obtain ⟨clock, hmem, hst⟩ := hbegun.upserted
    obtain ⟨t₁, hmoved, hid, hruns⟩ := hbegun.runs
    have hperm : (successes site st.session.working).Perm _ :=
      successes_started hmoved hid hbegun.scope (hruns ▸ Table.mem_put_self _ _) fun r hne => by
        rw [hruns, Table.mem_put_next hid]
        exact or_iff_right hne
    rw [if_neg (by rw [hbegun.running]; exact RunStatus.noConfusion)] at hperm
    have hnone : ∀ x ∈ (none : Option Scan), x.startedAt = run.script.startedAt ∧ ∀ id ∈ x.ids,
        ∃ p ∈ st.items, nativeIdForJob site.job.key p.2 = .ok id := fun x hx => by cases hx
    have hinv := h.scanned hst rfl (hbounds clock hmem) hstarted hnone hperm
    refine ⟨hstep ▸ hinv, sameRows_of_begun hbegun (by simp [seen, hout]) ?_ ?_⟩
    · rw [hstep]
      exact fun r hr => ⟨r, hr, SameRow.refl r, fun _ => rfl⟩
    · rw [hstep]
      exact fun _ r hr => hr

/-- What the last successful run has seen is not stale: it is not older than the older of the two
last starts. -/
theorem Inv.not_stale {site : Site} {t : Store} {clock : Micros} {scan : Scan} {scans : List Scan}
    (h : Inv site ⟨t, clock, scan :: scans⟩) {r : Resource} (hfresh : Fresh scan.startedAt r) :
    r ∉ Resources.staleResources t site.scope := by
  intro hstale
  obtain ⟨_, _, _, last, previous, rest, htimes, hlt⟩ :=
    (mem_staleResources h.runs h.sorted).1 hstale
  have hsorted := h.sorted
  rw [htimes, List.pairwise_cons] at hsorted
  have hle : previous ≤ last := hsorted.1 _ List.mem_cons_self
  have hlast : last = scan.startedAt := (List.cons.inj htimes).1.symm
  exact Int.not_le.2 hlt (Int.le_trans hle (hlast ▸ hfresh.2))

theorem step_collect {site : Site} {s : State} (h : Inv site s) {run : Run}
    (hclock : OnClock s (.collect run)) :
    Inv site (step site s (.collect run)) ∧ SameRows site s (.collect run) := by
  obtain ⟨hstarted, hlate, hbounds⟩ := times_bounds hclock
  cases hout : collected site run s.store with
  | none =>
    have hstep : step site s (.collect run) = { s with clock := run.script.retiredAt } := by
      simp [step, after, hout, Event.run]
    exact ⟨hstep ▸ h.idle hlate, sameRows_idle (by rw [hstep]) (by simp [seen, hout])⟩
  | some out =>
    have hstep : step site s (.collect run) = ⟨out.state.session.working, run.script.retiredAt,
        (if out.error.isNone then some (⟨run.script.startedAt, yielded site run.script⟩ : Scan)
          else none).toList ++ s.scans⟩ := by
      simp [step, after, hout, Event.run, Session.close]
    have hitems : seen site s (.collect run) =
        out.state.items.filterMap fun p => (nativeIdForJob site.job.key p.2).toOption := by
      simp [seen, hout]
    rcases collected_cases h hclock hout with
      ⟨hworking, herror, hnone⟩ | ⟨row, st, hbegun, hst, hyielded, hworking⟩
    · -- the start is lost
      have hsame : step site s (.collect run) = { s with clock := run.script.retiredAt } := by
        rw [hstep, hworking, herror]
        rfl
      rw [hnone] at hitems
      exact ⟨hsame ▸ h.idle hlate, sameRows_idle (by rw [hsame]) hitems⟩
    · obtain ⟨clock, hmem, hupserted⟩ := hbegun.upserted
      obtain ⟨t₁, hmoved, hid, hruns⟩ := hbegun.runs
      let done := finishedRow run row st out.error
      have hput : (unswept run row st out.error).sourceRuns = (t₁.put row).put done := by
        rw [unswept, hruns]
      have hstatus : done.status = .success ↔ out.error.isNone = true := by
        simp [done, finishedRow, SourceRuns.finished, SourceRuns.jobStatus]
      have hdone : done.id = t₁.next := hid
      have hscope : done.scope = site.scope := hbegun.scope
      have hself : done ∈ (unswept run row st out.error).sourceRuns :=
        hput ▸ Table.mem_put_self _ _
      have hperm : (successes site (unswept run row st out.error)).Perm _ :=
        successes_started hmoved hdone hscope hself fun r hne => by
          rw [hput]
          exact Table.mem_put_put hid rfl hne
      have hres : (unswept run row st out.error).resources = st.session.working.resources := rfl
      rw [hst] at hitems
      cases hsuccess : out.error.isNone with
      | false =>
        rw [hsuccess] at hstep hworking hstatus
        rw [if_neg fun hs => Bool.noConfusion (hstatus.1 hs)] at hperm
        have hnone : ∀ x ∈ (none : Option Scan), x.startedAt = run.script.startedAt ∧
            ∀ id ∈ x.ids, ∃ p ∈ st.items, nativeIdForJob site.job.key p.2 = .ok id :=
          fun x hx => by cases hx
        have hinv := h.scanned hupserted hres (hbounds clock hmem) hstarted hnone hperm
        rw [hworking] at hstep
        refine ⟨hstep ▸ hinv, sameRows_of_begun hbegun hitems ?_ ?_⟩
        · rw [hstep]
          exact fun r hr => ⟨r, hr, SameRow.refl r, fun _ => rfl⟩
        · rw [hstep]
          exact fun _ r hr => hr
      | true =>
        rw [hsuccess] at hstep hworking hstatus
        rw [if_pos (hstatus.2 rfl)] at hperm
        let scan : Scan := ⟨run.script.startedAt, yielded site run.script⟩
        have hstart : done.startedAt = scan.startedAt := hbegun.startedAt
        rw [hstart] at hperm
        have hscan : ∀ x ∈ some scan, x.startedAt = run.script.startedAt ∧ ∀ id ∈ x.ids,
            ∃ p ∈ st.items, nativeIdForJob site.job.key p.2 = .ok id := by
          intro x hx
          cases hx
          refine ⟨rfl, fun id hid => ?_⟩
          have hid' : id ∈ st.items.filterMap fun p =>
              (nativeIdForJob site.job.key p.2).toOption := hyielded ▸ hid
          obtain ⟨p, hp, hnative⟩ := List.mem_filterMap.1 hid'
          exact ⟨p, hp, eq_ok_of_toOption hnative⟩
        have hinv := h.scanned hupserted hres (hbounds clock hmem) hstarted hscan hperm
        rw [hworking] at hstep
        refine ⟨hstep ▸ hinv.swept run.script.retiredAt, sameRows_of_begun hbegun hitems ?_ ?_⟩
        · rw [hstep]
          intro r hr
          obtain ⟨r', hr', hsame, hstays⟩ := sweep_kept site run.script.retiredAt
            (t := unswept run row st out.error) hr
          exact ⟨r', hr', hsame, fun hfresh => hstays (hinv.not_stale hfresh)⟩
        · rw [hstep]
          exact fun hscans => absurd hscans (List.cons_ne_self _ _)

/-! ## Histories -/

theorem inv_start {site : Site} {t : Store} (h : Unscanned site t) (clock : Micros) :
    Inv site (start t clock) where
  single := fun r hr _ _ hcovers _ => absurd hcovers (h.resources r hr)
  lastSeen := fun r hr hcovers => absurd hcovers (h.resources r hr)
  runs := by
    have hnone : SourceRuns.successfulRuns t site.scope = [] :=
      List.eq_nil_iff_forall_not_mem.2 fun r hr =>
        h.runs r (mem_successfulRuns.1 hr).1 (mem_successfulRuns.1 hr).2.1
    exact List.Perm.of_eq (congrArg _ hnone)
  sorted := List.Pairwise.nil
  started := fun scan hscan => by cases hscan
  found := fun scan hscan => by cases hscan
  missed := fun r hr hcovers => absurd hcovers (h.resources r hr)

theorem step_run {site : Site} (s : State) (e : Event) (h : Inv site s) (hclock : OnClock s e) :
    Inv site (step site s e) ∧ SameRows site s e := by
  cases e with
  | collect run => exact step_collect h hclock
  | abandon run => exact step_abandon h hclock

/-- Over every history of a scope's runs under a monotone clock: retired means missed by the two
most recent successful runs, and no run moves, loses or duplicates a row. -/
theorem retirement_sound (site : Site) (t : Store) (ht : Unscanned site t) (clock : Micros)
    (es : List Event) (hclock : Trace.Along (step site) OnClock (start t clock) es) :
    Trace.Always (step site) (Sound site) (start t clock) es ∧
      Trace.Along (step site) (SameRows site) (start t clock) es := by
  have hinv : ∀ s e, Inv site s → OnClock s e → Inv site (step site s e) :=
    fun s e h hc => (step_run s e h hc).1
  exact ⟨(Trace.Along.always hinv (inv_start ht clock) hclock).mono fun _ => sound_of_inv,
    Trace.Along.of_inv step_run (inv_start ht clock) hclock⟩

instance (site : Site) (r : Resource) : Decidable (site.Covers r) :=
  inferInstanceAs (Decidable (_ = _))

instance (s : State) (e : Event) : Decidable (OnClock s e) :=
  inferInstanceAs (Decidable (List.Pairwise _ _))

def ordersSite : Site := ⟨0, "eu-west-1", Collector.rds⟩

/-- A run at `at_` that sees `raws`, and then ends as `ending` says. -/
def scanAt (at_ : Micros) (raws : List Raw) (ending : ScanEnd) : Run where
  dryRun := false
  force := true
  jobId := none
  script := {
    contended := false
    startedAt := at_
    items := raws.map fun raw => { raw := raw, seenAt := at_ + 1, observedAt := at_ + 1 }
    ending := ending
    finishedAt := at_ + 2
    retiredAt := at_ + 3 }

/-- Two complete scans miss the instance after it was seen by a complete scan, by one that then
failed and by one that was aborted. -/
def missedTwice : List Event :=
  [.collect (scanAt 10 [orders] .completed), .collect (scanAt 20 [] .completed),
    .collect (scanAt 30 [orders] (.clientError "Throttling" "Rate exceeded")),
    .abandon (scanAt 40 [orders] .completed), .collect (scanAt 50 [] .completed),
    .collect (scanAt 60 [] .completed)]

/-- The last of them retires it, and the next scan that sees it takes its row up again. -/
theorem orders_retired_and_back :
    (∃ r ∈ (Trace.exec (step ordersSite) (start knownAccount 0) missedTwice).store.resources,
        r.retiredAt = some 63) ∧
      Trace.Always (step ordersSite) (Sound ordersSite) (start knownAccount 0)
        (missedTwice ++ [.collect (scanAt 70 [orders] .completed)]) ∧
      Trace.Along (step ordersSite) (SameRows ordersSite) (start knownAccount 0)
        (missedTwice ++ [.collect (scanAt 70 [orders] .completed)]) :=
  ⟨by decide +kernel, retirement_sound ordersSite knownAccount
    ⟨by decide +kernel, by decide +kernel⟩ 0 _ (by decide +kernel)⟩

end Retirement

end Constat
