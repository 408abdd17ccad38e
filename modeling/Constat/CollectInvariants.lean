import Constat.FactBatch
import Constat.ObservedFacts

/-!
# CollectInvariants

What every collection keeps of the inventory. A collection writes accounts, resources, observations
and facts in several places, and a start that is lost rolls back what the call has written; an
invariant that each kind of write keeps holds after every call all the same.

* `Kept`     — an invariant of stores that each kind of write of a collection keeps.
* `Kept.history` — such an invariant holds after any history of collections.
* `Sound`    — one account an id, one resource a natural key with its account there, one row a fact
               key, and the facts of a database about a resource and in its account.
* `inventory_sound` — every history of collections from an empty store is sound.
-/

namespace Constat

namespace Collector

open Collectors Facts
open ReplayFacts (isAside ScanCall history)
open Session (WritesOnly)

/-! ## The rule -/

/-- The row takes the place of one with its natural key, or it has a new id and a new key. -/
def Entered (t : Store) (r : Resource) : Prop :=
  (∃ y ∈ t.resources, y.id = r.id ∧ Resources.keyOf y = Resources.keyOf r) ∨
    ∀ y ∈ t.resources, Resources.keyOf y ≠ Resources.keyOf r ∧ y.id ≠ r.id

/-- A fact of a job about a stored resource, or one of the correlation pass. -/
def Supplied (t : Store) (f : Fact) : Prop :=
  (∃ job ∈ jobRegistry, ∃ r ∈ t.resources, ∃ raw observedAt,
    f ∈ job.facts r.id r.accountId raw observedAt) ∨
  ∃ call itemsByJob now, f ∈ correlated call itemsByJob now

structure Kept (I : Store → Prop) : Prop where
  aside : ∀ {t w}, isAside w = true → I t → I (applyWrite t w)
  account : ∀ {t} externalId name, (∀ a ∈ t.accounts, a.externalId ≠ externalId) → I t →
    I { t with accounts := t.accounts.put (Accounts.newAccount t externalId name) }
  resource : ∀ {t r}, Entered t r → (t.accounts.get? r.accountId).isSome = true → I t →
    I { t with resources := t.resources.put r }
  observation : ∀ {t o}, (∃ r ∈ t.resources, r.id = o.resourceId) → o.id = t.observations.next →
    I t → I { t with observations := t.observations.put o }
  fact : ∀ {t f run}, Supplied t f → (∃ o, RowAt t.facts (keyOf f) o) →
    (RowAt t.facts (keyOf f) none → referencesExist t f = true) → I t → I (upserted t [f] run)

/-- The invariant holds of what a session sees and of what it has committed. -/
structure Both (I : Store → Prop) (s : DbSession) : Prop where
  working : I s.working
  committed : I s.committed

section

variable {I : Store → Prop}

theorem Both.working_only {s s' : DbSession} (h : Both I s) (hcommitted : s'.committed = s.committed)
    (hworking : I s'.working) : Both I s' where
  working := hworking
  committed := hcommitted ▸ h.committed

theorem Both.rollback {s : DbSession} (h : Both I s) : Both I s.rollback where
  working := h.committed
  committed := h.committed

theorem Both.asides {s s' : DbSession} (hI : Kept I) (h : Both I s)
    (hwrites : WritesOnly isAside s s') : Both I s' := by
  obtain ⟨ws, hws, rfl⟩ := hwrites
  refine h.working_only (Session.writes_committed _ _) ?_
  rw [Session.writes_working]
  have hall : ∀ t, I t → I (ws.foldl applyWrite t) := by
    intro t ht
    induction ws generalizing t with
    | nil => exact ht
    | cons w ws ih =>
      rw [List.forall_mem_cons] at hws
      exact ih hws.2 _ (hI.aside hws.1 ht)
  exact hall _ h.working

/-! ### Facts -/

theorem Supplied.of_resources {t t' : Store} {f : Fact} (h : Supplied t f)
    (hresources : t'.resources = t.resources) : Supplied t' f := by
  rcases h with ⟨job, hjob, r, hr, raw, observedAt, hf⟩ | h
  · exact .inl ⟨job, hjob, r, hresources ▸ hr, raw, observedAt, hf⟩
  · exact .inr h

theorem rowAt_none_of_upserted {t : Store} {f g : Fact} {run : Option Uuid}
    (hone : ∃ o, RowAt t.facts (keyOf f) o)
    (h : RowAt (Facts.upserted t [f] run).facts (keyOf g) none) : RowAt t.facts (keyOf g) none := by
  by_cases hk : keyOf f = keyOf g
  · obtain ⟨o, ho⟩ := hone
    have hsome := rowAt_upserted_single run ho
    rw [hk] at hsome
    have hnone := (h _).1 ((hsome _).2 rfl)
    cases hnone
  · exact (rowAt_upserted_other (by simpa using hk)).1 h

/-- A batch whose new facts have different keys is kept when its facts are. -/
theorem Kept.upserted (hI : Kept I) {t : Store} {facts : List Fact} (run : Option Uuid)
    (hsupplied : ∀ f ∈ facts, Supplied t f) (hone : ∀ f ∈ facts, ∃ o, RowAt t.facts (keyOf f) o)
    (hexist : ∀ f ∈ facts, RowAt t.facts (keyOf f) none → referencesExist t f = true)
    (hnew : DistinctNew t facts) (ht : I t) : I (Facts.upserted t facts run) := by
  rw [upserted_eq_foldl hone hnew]
  clear hnew
  induction facts generalizing t with
  | nil => exact ht
  | cons f facts ih =>
    rw [List.forall_mem_cons] at hsupplied hone hexist
    rw [List.foldl_cons]
    refine ih (fun g hg => (hsupplied.2 g hg).of_resources rfl)
      (fun g hg => (exists_rowAt_upserted hone.1 _).2 (hone.2 g hg))
      (fun g hg hnone => hexist.2 g hg (rowAt_none_of_upserted hone.1 hnone)) ?_
    exact hI.fact hsupplied.1 hone.1 hexist.1 ht

/-- A batch that goes through, when each of its facts is about a resource. -/
theorem Kept.upsertFacts (hI : Kept I) {s s' : DbSession} {facts : List Fact} {run : Option Uuid}
    {counts : Nat × Nat} (h : Facts.upsertFacts s facts run = .ok (s', counts))
    (hsupplied : ∀ f ∈ facts, Supplied s.working f)
    (habout : ∀ f ∈ facts, f.resourceId.isSome = true) (hs : Both I s) : Both I s' := by
  obtain ⟨hone, hflush⟩ := (upsertFacts_ok_iff run).1 ⟨s', counts, h⟩
  obtain ⟨hexist, hkeys⟩ := flushable_iff.1 hflush
  have hcommitted : s'.committed = s.committed := by
    rw [(upsertFacts_cases h).1, Session.writes_committed]
  have hall : (newFacts s.working facts).filter (fun f => f.resourceId.isSome) =
      newFacts s.working facts :=
    List.filter_eq_self.2 fun f hf => habout f (mem_newFacts.1 hf).1
  have hnew : DistinctNew s.working facts := by
    rw [hall] at hkeys
    exact hkeys
  refine hs.working_only hcommitted ?_
  rw [upsertFacts_working h]
  exact hI.upserted run hsupplied hone
    (fun f hf hnone => hexist f (mem_newFacts.2 ⟨hf, hnone⟩)) hnew hs.working

/-! ### One job -/

theorem job_observation_about {job : ScanJob} (hjob : job ∈ jobRegistry) {id : Uuid} {raw : Raw}
    {observedAt : Micros} : (job.observation id raw observedAt).resourceId = id := by
  simp only [jobRegistry, List.mem_cons, List.not_mem_nil, or_false] at hjob
  rcases hjob with rfl | rfl | rfl | rfl <;> rfl

theorem entered_of_upsert {s s' : DbSession} {key : Resources.NaturalKey} {now : Micros}
    {fresh : Uuid} {r : Resource} (h : Resources.upsertResource s key now fresh = .ok (s', r)) :
    Entered s.working r := by
  obtain ⟨_, hkey, _, _, hfrom⟩ := Retirement.upsertResource_spec h
  rcases hfrom with ⟨r₀, hr₀, hkey₀, rfl⟩ | hnone
  · exact .inl ⟨r₀, hr₀, rfl, rfl⟩
  · exact .inr fun y hy => ⟨hkey ▸ (hnone y hy).1, (hnone y hy).2⟩

theorem describeItem_both (hI : Kept I) {call : Call} {job : ScanJob} (hjob : job ∈ jobRegistry)
    {run : SourceRun} {st st' : JobState} {r : Resource} {raw : Raw} {observedAt : Micros}
    (hst : Both I st.session) (hr : r ∈ st.session.working.resources)
    (haccount : r.accountId = call.accountId)
    (h : describeItem call job run st r.id raw observedAt = .ok st') : Both I st'.session := by
  simp only [describeItem] at h
  split at h
  · cases h
    exact hst
  · split at h
    · cases h
    · rename_i s inserted updated hfacts
      cases h
      have hobserved : Both I (Observations.insertObservation st.session
          (job.observation r.id raw observedAt) (some run.id)) :=
        hst.working_only rfl (hI.observation ⟨r, hr, (job_observation_about hjob).symm⟩ rfl hst.working)
      refine hI.upsertFacts hfacts (fun f hf => ?_) (fun f hf => ?_) hobserved
      · rw [← haccount] at hf
        exact .inl ⟨job, hjob, r, hr, raw, observedAt, hf⟩
      · rw [((job_facts_owned hjob r.id call.accountId raw observedAt).1 f hf).1]
        rfl

theorem scanItem_both (hI : Kept I) {call : Call} {region : String} {job : ScanJob}
    (hjob : job ∈ jobRegistry) {run : SourceRun} {st st' : JobState} {item : ScannedItem}
    (hst : Both I st.session)
    (hexists : (st.session.working.accounts.get? call.accountId).isSome = true)
    (h : scanItem call region job run st item = .ok st') : Both I st'.session := by
  obtain ⟨native, s, r, _, hupsert, hdescribe⟩ := scanItem_cases h
  have hentered := entered_of_upsert hupsert
  obtain ⟨rfl, hkey, _⟩ := Retirement.upsertResource_spec hupsert
  have haccount : r.accountId = call.accountId := congrArg Resources.NaturalKey.accountId hkey
  have hput : Both I (st.session.write (.resource r)) :=
    hst.working_only rfl (hI.resource hentered (haccount ▸ hexists) hst.working)
  refine describeItem_both hI hjob ?_ ?_ haccount hdescribe
  · exact hput
  · exact Table.mem_put_self _ _

theorem scanItems_both (hI : Kept I) {call : Call} {region : String} {job : ScanJob}
    (hjob : job ∈ jobRegistry) {run : SourceRun} {st st' : JobState} {items : List ScannedItem}
    (hst : Both I st.session)
    (hexists : (st.session.working.accounts.get? call.accountId).isSome = true)
    (h : items.foldlM (scanItem call region job run) st = .ok st') : Both I st'.session := by
  refine (Loop.keep (fun st : JobState => Both I st.session ∧
    (st.session.working.accounts.get? call.accountId).isSome = true) ?_ ⟨hst, hexists⟩ h).1
  rintro item _ st₁ st₂ ⟨hst₁, hexists₁⟩ hitem
  refine ⟨scanItem_both hI hjob hst₁ hexists₁ hitem, ?_⟩
  rw [accounts_of_loop (scanItem_loop hitem).1]
  exact hexists₁

/-- Rows that take the place of others with their natural keys. -/
theorem Kept.replaced (hI : Kept I) {t : Store} {rs : List Resource}
    (hrs : ∀ r ∈ rs, ∃ y ∈ t.resources, y.id = r.id ∧ Resources.keyOf y = Resources.keyOf r)
    (haccounts : ∀ r ∈ rs, (t.accounts.get? r.accountId).isSome = true) (ht : I t) :
    I { t with resources := t.resources.putAll rs } := by
  induction rs generalizing t with
  | nil => exact ht
  | cons r rs ih =>
    rw [List.forall_mem_cons] at hrs haccounts
    obtain ⟨⟨y, hy, hid, hkey⟩, hrest⟩ := hrs
    have hput : I { t with resources := t.resources.put r } :=
      hI.resource (.inl ⟨y, hy, hid, hkey⟩) haccounts.1 ht
    refine ih (t := { t with resources := t.resources.put r }) (fun r' hr' => ?_) haccounts.2 hput
    obtain ⟨y', hy', hid', hkey'⟩ := hrest r' hr'
    by_cases hsame : y'.id = r.id
    · have hrow : y' = y := Table.eq_of_key hy' hy (hsame.trans hid.symm)
      refine ⟨r, Table.mem_put_self _ _, hsame.symm.trans hid', ?_⟩
      rw [← hkey, ← hkey', hrow]
    · exact ⟨y', Table.mem_put.2 (.inr ⟨hy', hsame⟩), hid', hkey'⟩

theorem Kept.swept (hI : Kept I) {s : DbSession} {scope : Scope} (now : Micros)
    (haccount : (s.working.accounts.get? scope.accountId).isSome = true) (hs : Both I s) :
    Both I (Resources.retireStaleResources s scope now).1 := by
  refine hs.working_only (Session.writes_committed _ _) ?_
  rw [Retirement.retireStaleResources_working]
  obtain ⟨q, hstale, hq⟩ := Retirement.staleResources_eq s.working scope
  have hrow : ∀ r ∈ Resources.staleResources s.working scope,
      r ∈ s.working.resources ∧ r.accountId = scope.accountId := by
    intro r hr
    rw [hstale] at hr
    obtain ⟨hmem, hqr⟩ := List.mem_filter.1 hr
    exact ⟨hmem, ((hq r).1 hqr).1.1⟩
  refine hI.replaced (fun r' hr' => ?_) (fun r' hr' => ?_) hs.working
  · obtain ⟨r, hr, rfl⟩ := List.mem_map.1 hr'
    exact ⟨r, (hrow r hr).1, rfl, rfl⟩
  · obtain ⟨r, hr, rfl⟩ := List.mem_map.1 hr'
    show (s.working.accounts.get? r.accountId).isSome = true
    rw [(hrow r hr).2]
    exact haccount

theorem finishJob_both (hI : Kept I) {call : Call} {region : String} {plan : JobPlan}
    {run : SourceRun} {st : JobState} {error : Option String}
    (haccount : (st.session.working.accounts.get? call.accountId).isSome = true)
    (hst : Both I st.session) : Both I (finishJob call region plan run st error).state.session := by
  simp only [finishJob]
  have hfinished : WritesOnly isAside st.session (SourceRuns.finishRun st.session run.id
      (SourceRuns.jobStatus error.isNone error) (some st.resources) error
      plan.script.finishedAt) := by
    simp only [SourceRuns.finishRun]
    split
    · exact WritesOnly.refl _ _
    · exact WritesOnly.write _ rfl
  have hboth := hst.asides hI hfinished
  split
  · refine hI.swept _ ?_ hboth
    rw [hfinished.frame Store.accounts fun w hw t => by cases w <;> first | rfl | cases hw]
    exact haccount
  · exact hboth

theorem runRegionJob_both (hI : Kept I) {call : Call} {region : String} {s : DbSession}
    {fresh : Uuid} {plan : JobPlan} {out : JobOutcome} (hjob : plan.job ∈ jobRegistry)
    (hs : Both I s) (h : runRegionJob SourceRuns.startRun call region s fresh plan = .ok out) :
    Both I out.state.session := by
  obtain ⟨ws, hws, _, hcases⟩ := startRun_cases s (scopeOf call region plan.job) call.force
    call.jobId plan.script.startedAt plan.script.contended
  have haborted : Both I (s.writes ws) :=
    hs.asides hI ⟨ws, fun w hw => ReplayFacts.isAside_of_isAbort w (hws w hw), rfl⟩
  rcases hcases with ⟨_, run, _, hstart, _⟩ | ⟨_, hstart, _⟩
  · have hstarted : Both I ((s.writes ws).write (.sourceRun run)) :=
      haborted.asides hI (WritesOnly.write _ rfl)
    have hexists := (startRun_begun hstart).2.2.1
    simp only [runRegionJob, hstart, runScan] at h
    split at h
    · cases h
    · rename_i st hst
      split at h
      · cases h
      · cases h
        have hscanned := Loop.keep (fun st : JobState =>
          (st.session.working.accounts.get? call.accountId).isSome = true)
          (fun item _ st₁ st₂ hst₁ hitem => by
            rw [accounts_of_loop (scanItem_loop hitem).1]
            exact hst₁) (b := .start _ fresh) hexists hst
        exact finishJob_both hI hscanned (scanItems_both hI hjob hstarted hexists hst)
  · simp only [runRegionJob, hstart] at h
    cases h
    exact haborted.rollback

/-! ### One call -/

theorem correlate_both (hI : Kept I) {call : Call} {now : Micros} {rs : RegionState}
    {c : CollectState} (hrs : Both I rs.collect.session) (h : correlate call now rs = .ok c) :
    Both I c.session := by
  simp only [correlate] at h
  split at h
  · cases h
    exact hrs
  · split at h
    · cases h
    · rename_i s inserted updated hfacts
      cases h
      refine hI.upsertFacts hfacts (fun f hf => .inr ⟨call, rs.itemsByJob, now, hf⟩)
        (fun f hf => ?_) hrs
      simp only [correlated, Ec2.correlationFacts] at hf
      split at hf
      · cases hf
      · rcases List.mem_append.1 hf with hf | hf <;> obtain ⟨item, _, rfl⟩ := List.mem_map.1 hf <;>
          rfl

theorem collectRegion_both (hI : Kept I) {call : Call} {max : Int} {plan : RegionPlan}
    {c c' : CollectState} (hjobs : ∀ jp ∈ plan.jobs, jp.job ∈ jobRegistry)
    (hc : Both I c.session) (h : collectRegion SourceRuns.startRun call max c plan = .ok c') :
    Both I c'.session := by
  rcases collectRegion_cases h with ⟨_, rfl⟩ | ⟨_, rs, c₁, hrs, hc₁, rfl⟩
  · exact hc
  · have hend : Both I rs.collect.session := by
      refine Loop.keep (fun rs : RegionState => Both I rs.collect.session) ?_ hc hrs
      intro jp hjp rs₁ rs₂ hrs₁ hrun
      simp only [runJob] at hrun
      split at hrun
      · cases hrun
      · rename_i out hout
        cases hrun
        rw [addOutcome_session]
        exact runRegionJob_both hI (hjobs jp hjp) hrs₁ hout
    have hcorrelated : Both I c₁.session := correlate_both hI hend hc₁
    exact hcorrelated

theorem getOrCreate_both (hI : Kept I) {s s' : DbSession} {externalId : String}
    {name : Option String} {account : Account} (hs : Both I s)
    (h : Accounts.getOrCreate s externalId name = .ok (s', account)) : Both I s' := by
  simp only [Accounts.getOrCreate] at h
  split at h
  · cases h
  · cases h
    exact hs
  · rename_i hnone
    cases h
    refine hs.working_only rfl (hI.account externalId name (fun a ha hid => ?_) hs.working)
    have hmem : a ∈ s.working.accounts.rows.filter fun a => a.externalId = externalId :=
      List.mem_filter.2 ⟨ha, decide_eq_true hid⟩
    rw [eq_nil_of_scalarOneOrNone hnone] at hmem
    cases hmem

theorem Kept.collectStep (hI : Kept I) (target : TargetAccount) (options : Options) (world : World)
    {t : Store} (ht : I t) : I (Collector.collectStep target options world t) := by
  simp only [Collector.collectStep]
  split
  · exact ht
  · rename_i s result hcall
    obtain ⟨jobs, s₀, account, c, hjobs, _, haccount, hfold, hout⟩ := collectTargetWith_ok hcall
    cases hout
    have hplans : ∀ plan ∈ planOf world jobs (regionsOf target),
        ∀ jp ∈ plan.jobs, jp.job ∈ jobRegistry := planOf_registry (resolveJobs_registry hjobs)
    have hstart : Both I s₀ := getOrCreate_both hI ⟨ht, ht⟩ haccount
    have hend : Both I c.session := Loop.keep (fun c : CollectState => Both I c.session)
      (fun plan hplan c₁ c₂ hc₁ hregion => collectRegion_both hI (hplans plan hplan) hc₁ hregion)
      hstart hfold
    have haside : ∀ w, isEnding w = true → isAside w = true := fun w hw => by
      cases w <;> first | rfl | cases hw
    rcases conclude_wrote target options (regionsOf target).length c with
      ⟨_, hsame⟩ | ⟨_, s, hw, hcommit⟩
    · rw [hsame]
      exact hend.committed
    · rw [hcommit]
      exact (hend.asides hI (hw.mono haside).writesOnly).working

theorem Kept.history (hI : Kept I) (calls : List ScanCall) {t : Store} (ht : I t) :
    I (ReplayFacts.history calls t) := by
  induction calls generalizing t with
  | nil => exact ht
  | cons call calls ih => exact ih (hI.collectStep _ _ _ ht)

end

/-! ## A sound inventory -/

def ec2Namespaces : List String := ["aws.ec2.volume", "aws.ec2.snapshot", "aws.ec2.instance"]

/-- A fact that is not about EC2 is of the RDS job, about a resource and in its account. -/
def Rooted (t : Store) (row : FactRow) : Prop :=
  row.namespaceName ∈ ec2Namespaces ∨
    (row.namespaceName = "aws.rds" ∧ row.source = Rds.sourceName ∧
      ∃ r ∈ t.resources, row.resourceId = some r.id ∧ row.accountId = some r.accountId)

structure Sound (t : Store) : Prop where
  accounts : ∀ a ∈ t.accounts, ∀ b ∈ t.accounts, a.externalId = b.externalId → a = b
  resources : ∀ r ∈ t.resources, ∀ x ∈ t.resources, Resources.keyOf r = Resources.keyOf x → r = x
  owned : ∀ r ∈ t.resources, (t.accounts.get? r.accountId).isSome = true
  observed : ∀ o ∈ t.observations, ∃ r ∈ t.resources, r.id = o.resourceId
  facts : ∀ k, ∃ o, RowAt t.facts k o
  rooted : ∀ row ∈ t.facts, Rooted t row

theorem sound_empty : Sound Store.empty where
  accounts := fun a ha => absurd ha (Table.not_mem_empty a)
  resources := fun r hr => absurd hr (Table.not_mem_empty r)
  owned := fun r hr => absurd hr (Table.not_mem_empty r)
  observed := fun o ho => absurd ho (Table.not_mem_empty o)
  facts := fun _ => ⟨none, rowAt_none.2 fun row hrow => absurd hrow (Table.not_mem_empty row)⟩
  rooted := fun row hrow => absurd hrow (Table.not_mem_empty row)

/-- A store with the same inventory is as sound. -/
theorem Sound.of_eq {t u : Store} (h : Sound t) (haccounts : u.accounts = t.accounts)
    (hresources : u.resources = t.resources) (hobservations : u.observations = t.observations)
    (hfacts : u.facts = t.facts) : Sound u where
  accounts := by
    rw [haccounts]
    exact h.accounts
  resources := by
    rw [hresources]
    exact h.resources
  owned := by
    rw [haccounts, hresources]
    exact h.owned
  observed := by
    rw [hobservations, hresources]
    exact h.observed
  facts := by
    rw [hfacts]
    exact h.facts
  rooted := by
    unfold Rooted
    rw [hfacts, hresources]
    exact h.rooted

theorem Sound.account {t : Store} (h : Sound t) (externalId : String) (name : Option String)
    (hnew : ∀ a ∈ t.accounts, a.externalId ≠ externalId) :
    Sound { t with accounts := t.accounts.put (Accounts.newAccount t externalId name) } := by
  refine ⟨fun a ha b hb hid => ?_, h.resources, fun r hr => ?_, h.observed, h.facts, h.rooted⟩
  · rcases (Table.mem_put_next rfl).1 ha with rfl | ha
    · rcases (Table.mem_put_next rfl).1 hb with rfl | hb
      · rfl
      · exact absurd hid.symm (hnew b hb)
    · rcases (Table.mem_put_next rfl).1 hb with rfl | hb
      · exact absurd hid (hnew a ha)
      · exact h.accounts a ha b hb hid
  · show ((t.accounts.put _).get? r.accountId).isSome = true
    rw [Table.get?_put]
    split
    · rfl
    · exact h.owned r hr

theorem Sound.resource {t : Store} {r : Resource} (h : Sound t) (hentered : Entered t r)
    (haccount : (t.accounts.get? r.accountId).isSome = true) :
    Sound { t with resources := t.resources.put r } := by
  have hother : ∀ x ∈ t.resources, x.id ≠ r.id → Resources.keyOf x ≠ Resources.keyOf r := by
    intro x hx hid hkey
    rcases hentered with ⟨y, hy, hyid, hykey⟩ | hnew
    · have hsame : x = y := h.resources x hx y hy (hkey.trans hykey.symm)
      exact hid (hsame ▸ hyid)
    · exact (hnew x hx).1 hkey
  have hsame : ∀ x ∈ t.resources, x.id = r.id → x.accountId = r.accountId := by
    intro x hx hid
    rcases hentered with ⟨y, hy, hyid, hykey⟩ | hnew
    · have hrow : x = y := Table.eq_of_key hx hy (hid.trans hyid.symm)
      exact hrow ▸ congrArg Resources.NaturalKey.accountId hykey
    · exact absurd hid (hnew x hx).2
  -- a row that is named by its id is the one of the store, or the one that takes its place
  have hfind : ∀ x ∈ t.resources, ∃ x' ∈ t.resources.put r, x'.id = x.id ∧
      x'.accountId = x.accountId := by
    intro x hx
    by_cases hid : x.id = r.id
    · exact ⟨r, Table.mem_put_self _ _, hid.symm, (hsame x hx hid).symm⟩
    · exact ⟨x, Table.mem_put.2 (.inr ⟨hx, hid⟩), rfl, rfl⟩
  refine ⟨h.accounts, fun x hx y hy hkey => ?_, fun x hx => ?_, fun o ho => ?_, h.facts,
    fun row hrow => ?_⟩
  · rcases Table.mem_put.1 hx with rfl | ⟨hold, hxid⟩
    · rcases Table.mem_put.1 hy with rfl | ⟨hold, hyid⟩
      · rfl
      · exact absurd hkey.symm (hother y hold hyid)
    · rcases Table.mem_put.1 hy with rfl | ⟨hold', _⟩
      · exact absurd hkey (hother x hold hxid)
      · exact h.resources x hold y hold' hkey
  · rcases Table.mem_put.1 hx with rfl | ⟨hx, _⟩
    · exact haccount
    · exact h.owned x hx
  · obtain ⟨x, hx, hid⟩ := h.observed o ho
    obtain ⟨x', hx', hid', _⟩ := hfind x hx
    exact ⟨x', hx', hid'.trans hid⟩
  · rcases h.rooted row hrow with hec2 | ⟨hname, hsource, x, hx, hid, hacc⟩
    · exact .inl hec2
    · obtain ⟨x', hx', hid', hacc'⟩ := hfind x hx
      exact .inr ⟨hname, hsource, x', hx', hid' ▸ hid, hacc' ▸ hacc⟩

theorem job_namespace {job : ScanJob} (hjob : job ∈ jobRegistry) {id account : Uuid} {raw : Raw}
    {observedAt : Micros} : ∀ f ∈ job.facts id account raw observedAt,
      f.namespaceName ∈ ec2Namespaces ∨ (f.namespaceName = "aws.rds" ∧ job = rds) := by
  simp only [jobRegistry, List.mem_cons, List.not_mem_nil, or_false] at hjob
  rcases hjob with rfl | rfl | rfl | rfl <;>
    simp [rds, Rds.dbToFacts, ec2Volume, Ec2.volumeToFacts, ec2Snapshot, Ec2.snapshotToFacts,
      ec2Instance, Ec2.instanceToFacts, makeFact, ec2Namespaces]

/-- Only the RDS job has facts that are not about EC2. -/
theorem Supplied.root {t : Store} {f : Fact} (h : Supplied t f) :
    f.namespaceName ∈ ec2Namespaces ∨ (f.namespaceName = "aws.rds" ∧ f.source = Rds.sourceName ∧
      ∃ r ∈ t.resources, f.resourceId = some r.id ∧ f.accountId = some r.accountId) := by
  rcases h with ⟨job, hjob, r, hr, raw, observedAt, hf⟩ | ⟨call, itemsByJob, now, hf⟩
  · rcases job_namespace hjob f hf with hec2 | ⟨hname, hrds⟩
    · exact .inl hec2
    · have howned := (job_facts_owned hjob r.id r.accountId raw observedAt).1 f hf
      have hsource := (ReplayFacts.job_sources hjob).2.1 r.id r.accountId raw observedAt f hf
      exact .inr ⟨hname, hsource.trans (congrArg ScanJob.source hrds), r, hr, howned⟩
  · simp only [correlated, Ec2.correlationFacts] at hf
    split at hf
    · cases hf
    · refine .inl ?_
      rcases List.mem_append.1 hf with hf | hf <;> obtain ⟨item, _, rfl⟩ := List.mem_map.1 hf <;>
        simp [Ec2.volumeExistsFact, Ec2.attachedVolumesFact, makeFact, ec2Namespaces]

theorem Sound.fact {t : Store} {f : Fact} {run : Option Uuid} (h : Sound t)
    (hsupplied : Supplied t f) : Sound (Facts.upserted t [f] run) := by
  obtain ⟨o, ho⟩ := h.facts (keyOf f)
  refine ⟨h.accounts, h.resources, h.owned, h.observed,
    fun k => (exists_rowAt_upserted ⟨o, ho⟩ k).2 (h.facts k), fun row hrow => ?_⟩
  have hput : (Facts.upserted t [f] run).facts = t.facts.put (rowOf t f run o) := by
    rw [Facts.upserted, rowsFrom_single ho]
    rfl
  rw [hput] at hrow
  rcases Table.mem_put.1 hrow with rfl | ⟨hrow, _⟩
  · cases o with
    | none => exact hsupplied.root
    | some old => exact h.rooted old ((ho old).2 rfl).1
  · exact h.rooted row hrow

theorem kept_sound : Kept Sound where
  aside := by
    intro t w hw ht
    cases w <;> first | exact ht.of_eq rfl rfl rfl rfl | cases hw
  account := fun externalId name hnew ht => ht.account externalId name hnew
  resource := fun hentered haccount ht => ht.resource hentered haccount
  observation := by
    intro t o habout _ ht
    refine ⟨ht.accounts, ht.resources, ht.owned, fun o' ho' => ?_, ht.facts, ht.rooted⟩
    rcases Table.mem_put.1 ho' with rfl | ⟨ho', _⟩
    · exact habout
    · exact ht.observed o' ho'
  fact := fun hsupplied _ _ ht => ht.fact hsupplied

theorem inventory_sound (calls : List ScanCall) : Sound (history calls Store.empty) :=
  kept_sound.history calls sound_empty

end Collector

end Constat
