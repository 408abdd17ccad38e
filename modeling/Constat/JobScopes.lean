import Mathlib.Data.Finset.Card
import Constat.CollectJobs

/-!
# JobScopes

The scopes of a job: what the runs that the collection of an item leaves say of the item. The items
name an account by its AWS id and the runs by its row, so the two counts that `is_job_complete`
compares are over different things.

* `scopeKept`  — a collection adds runs of its item's scope only and removes none.
* `Covered`    — every run of the job is of the scope of one of its items, and an AWS id has one row.
* `isJobComplete_iff` — a job is complete when its runs cover the scopes of its items and no two of
                        its items have the same scope.
-/

namespace Constat

def WorkItem.scope (item : WorkItem) : String × String := (item.awsAccountId, item.region)

namespace CollectJobs

open Collector

/-- `a` is the row of an AWS account id, and the only one. -/
def RowOf (t : Store) (externalId : String) (a : Account) : Prop :=
  a ∈ t.accounts ∧ a.externalId = externalId ∧
    ∀ b ∈ t.accounts, b.externalId = externalId → b = a

/-- `u` is `t` after a part of the collection of an item, for an account found or created in `t`. -/
structure ScopeKept (item : WorkItem) (t : Store) (account : Account) (u : Store) : Prop where
  accounts : ∀ a ∈ t.accounts, a ∈ u.accounts
  only : ∀ a ∈ u.accounts, a ∈ t.accounts ∨ a = account
  kept : ∀ r ∈ t.sourceRuns, r.jobId ≠ none → r ∈ u.sourceRuns
  runs : ∀ r ∈ u.sourceRuns, r.jobId = some item.jobId → r ∈ t.sourceRuns ∨
    (r.accountId = account.id ∧ r.region = item.region ∧ (u.accounts.get? account.id).isSome)

theorem stable_scopeKept (item : WorkItem) (t : Store) (account : Account) :
    Stable (callOf item account) item.region fun u =>
      JobsKept item.jobId t u ∧ ScopeKept item t account u where
  congr := by
    rintro u u' ⟨hjobs, haccounts, honly, hkept, hruns⟩ hsame
    refine ⟨hjobs.of_eq hsame.sourceRuns hsame.collectJobs, ?_, ?_, ?_, ?_⟩
    · rw [hsame.accounts]; exact haccounts
    · rw [hsame.accounts]; exact honly
    · rw [hsame.sourceRuns]; exact hkept
    · rw [hsame.sourceRuns, hsame.accounts]; exact hruns
  abort := by
    rintro u scope now ⟨hjobs, haccounts, honly, hkept, hruns⟩
    refine ⟨(stable_jobsKept item.jobId t (callOf item account) item.region rfl).abort scope now
      hjobs, haccounts, honly, fun r hr hne => ?_, fun r hr hjob => ?_⟩
    · exact (mem_abortedStore scope now hjobs.ended hne).2 (hkept r hr hne)
    · have hne : r.jobId ≠ none := by simp [hjob]
      exact hruns r ((mem_abortedStore scope now hjobs.ended hne).1 hr) hjob
  ran := by
    rintro u run done ⟨hjobs, haccounts, honly, hkept, hruns⟩ hrun
    refine ⟨(stable_jobsKept item.jobId t (callOf item account) item.region rfl).ran hjobs hrun,
      haccounts, honly, fun r hr hne => ?_, fun r hr hjob => ?_⟩
    · by_cases hrd : r = done
      · rw [hrd]
        exact Table.mem_put_self _ _
      · exact (Table.mem_put_put hrun.started hrun.same hrd).2 (hkept r hr hne)
    · by_cases hrd : r = done
      · rw [hrd]
        exact .inr ⟨hrun.accountId, hrun.region, hrun.account⟩
      · exact hruns r ((Table.mem_put_put hrun.started hrun.same hrd).1 hr) hjob

theorem eq_of_getByExternalId {t : Store} {externalId : String} {found : Option Account}
    (h : Accounts.getByExternalId t externalId = .ok found) {b : Account} (hb : b ∈ t.accounts)
    (hid : b.externalId = externalId) : found = some b := by
  have hmem : b ∈ t.accounts.rows.filter fun a => a.externalId = externalId :=
    List.mem_filter.2 ⟨hb, decide_eq_true hid⟩
  rw [Accounts.getByExternalId] at h
  cases found with
  | none =>
    rw [eq_nil_of_scalarOneOrNone h] at hmem
    cases hmem
  | some a =>
    rw [eq_singleton_of_scalarOneOrNone h] at hmem
    rw [List.mem_singleton.1 hmem]

theorem mem_of_getByExternalId {t : Store} {externalId : String} {a : Account}
    (h : Accounts.getByExternalId t externalId = .ok (some a)) :
    a ∈ t.accounts ∧ a.externalId = externalId := by
  rw [Accounts.getByExternalId] at h
  have hmem : a ∈ t.accounts.rows.filter fun a => a.externalId = externalId :=
    eq_singleton_of_scalarOneOrNone h ▸ List.mem_singleton_self a
  obtain ⟨hmem, hid⟩ := List.mem_filter.1 hmem
  exact ⟨hmem, of_decide_eq_true hid⟩

/-- The account of a call is the only one of its AWS id, once a run has found its row. -/
theorem rowOf_account {item : WorkItem} {t u : Store} {s : DbSession} {account : Account}
    (haccount : Accounts.getOrCreate (.begin t) item.awsAccountId item.name = .ok (s, account))
    (hkept : ScopeKept item t account u) (hrow : (u.accounts.get? account.id).isSome) :
    RowOf u item.awsAccountId account := by
  obtain ⟨a, ha⟩ := Option.isSome_iff_exists.1 hrow
  obtain ⟨ha, hid⟩ := Table.get?_eq_some.1 ha
  rcases getOrCreate_cases haccount with ⟨_, hfound⟩ | ⟨_, hnew, hfound⟩
  · obtain ⟨hmem, hexternal⟩ := mem_of_getByExternalId hfound
    refine ⟨hkept.accounts account hmem, hexternal, fun b hb hbid => ?_⟩
    rcases hkept.only b hb with hb | hb
    · exact (Option.some.inj (eq_of_getByExternalId hfound hb hbid)).symm
    · exact hb
  · have haccount : a = account := by
      rcases hkept.only a ha with ha | ha
      · have hnext : account.id = t.accounts.next := by rw [hnew]; rfl
        exact absurd (hid.trans hnext) (Table.fresh_next ha)
      · exact ha
    refine ⟨haccount ▸ ha, by rw [hnew]; rfl, fun b hb hbid => ?_⟩
    rcases hkept.only b hb with hb | hb
    · cases eq_of_getByExternalId hfound hb hbid
    · exact hb

/-- The account of a call is no second row of an AWS id. -/
theorem rowOf_kept {item : WorkItem} {t u : Store} {s : DbSession} {account : Account}
    (haccount : Accounts.getOrCreate (.begin t) item.awsAccountId item.name = .ok (s, account))
    (hkept : ScopeKept item t account u) {externalId : String} {a : Account}
    (ha : RowOf t externalId a) : RowOf u externalId a := by
  refine ⟨hkept.accounts a ha.1, ha.2.1, fun b hb hbid => ?_⟩
  rcases hkept.only b hb with hb | rfl
  · exact ha.2.2 b hb hbid
  · rcases getOrCreate_cases haccount with ⟨_, hfound⟩ | ⟨_, hnew, hnone⟩
    · exact ha.2.2 b (mem_of_getByExternalId hfound).1 hbid
    · have hexternal : a.externalId = item.awsAccountId := by
        rw [ha.2.1, ← hbid, hnew]
        rfl
      cases eq_of_getByExternalId hnone ha.1 hexternal

/-- `u` is `t` after the collection of an item. -/
structure Scoped (item : WorkItem) (t u : Store) : Prop where
  rows : ∀ {externalId a}, RowOf t externalId a → RowOf u externalId a
  kept : ∀ r ∈ t.sourceRuns, r.jobId ≠ none → r ∈ u.sourceRuns
  runs : ∀ r ∈ u.sourceRuns, r.jobId = some item.jobId → r ∈ t.sourceRuns ∨
    (r.region = item.region ∧ ∃ a, RowOf u item.awsAccountId a ∧ r.accountId = a.id)

theorem scopeKept_start {item : WorkItem} {t : Store} {s : DbSession} {account : Account}
    (haccount : Accounts.getOrCreate (.begin t) item.awsAccountId item.name = .ok (s, account)) :
    ScopeKept item t account t ∧ ScopeKept item t account s.working := by
  have hself : ScopeKept item t account t :=
    ⟨fun _ ha => ha, fun _ ha => .inl ha, fun _ hr _ => hr, fun _ hr _ => .inl hr⟩
  refine ⟨hself, ?_⟩
  rcases getOrCreate_cases haccount with ⟨rfl, _⟩ | ⟨rfl, hnew, _⟩
  · exact hself
  · have hmem : ∀ a, a ∈ (t.accounts.put account) ↔ a = account ∨ a ∈ t.accounts :=
      fun a => Table.mem_put_next (by rw [hnew]; rfl)
    exact ⟨fun a ha => (hmem a).2 (.inr ha), fun a ha => ((hmem a).1 ha).symm, fun _ hr _ => hr,
      fun _ hr _ => .inl hr⟩

/-- The runs of the job that a collection adds are of the scope of its item. -/
theorem processItem_scoped (item : WorkItem) (world : World) {t : Store} (ht : Ended t) :
    Scoped item t (processItem item world t).1 := by
  have hstart : ∀ s account, Accounts.getOrCreate (.begin t) item.awsAccountId item.name =
      .ok (s, account) → (JobsKept item.jobId t t ∧ ScopeKept item t account t) ∧
        JobsKept item.jobId t s.working ∧ ScopeKept item t account s.working := by
    intro s account haccount
    obtain ⟨hself, hcreated⟩ := scopeKept_start haccount
    refine ⟨⟨JobsKept.refl ht _, hself⟩, ?_, hcreated⟩
    rcases getOrCreate_cases haccount with ⟨rfl, _⟩ | ⟨rfl, _⟩
    · exact JobsKept.refl ht _
    · exact (JobsKept.refl ht _).of_eq rfl rfl
  rcases processItem_keeps item world (stable_scopeKept item t) hstart with
    hsame | ⟨s, account, haccount, _, hkept⟩
  · rw [hsame]
    exact ⟨fun ha => ha, fun _ hr _ => hr, fun _ hr _ => .inl hr⟩
  · refine ⟨fun ha => rowOf_kept haccount hkept ha, hkept.kept, fun r hr hjob => ?_⟩
    rcases hkept.runs r hr hjob with hold | ⟨haccountId, hregion, hrow⟩
    · exact .inl hold
    · exact .inr ⟨hregion, account, rowOf_account haccount hkept hrow, haccountId⟩

/-! ## A collection that succeeds -/

/-- A run of the call that has ended is on record. -/
def Has (item : WorkItem) (account : Account) (u : Store) : Prop :=
  (u.accounts.get? account.id).isSome ∧ ∃ r ∈ u.sourceRuns, r.jobId = some item.jobId ∧
    r.accountId = account.id ∧ r.region = item.region ∧ r.status ≠ .running

theorem stable_has (item : WorkItem) (t : Store) (account : Account) :
    Stable (callOf item account) item.region fun u =>
      JobsKept item.jobId t u ∧ Has item account u where
  congr := by
    rintro u u' ⟨hjobs, hrow, hrun⟩ hsame
    refine ⟨hjobs.of_eq hsame.sourceRuns hsame.collectJobs, ?_, ?_⟩
    · rw [hsame.accounts]; exact hrow
    · rw [hsame.sourceRuns]; exact hrun
  abort := by
    rintro u scope now ⟨hjobs, hrow, r, hr, hjob, hrest⟩
    refine ⟨(stable_jobsKept item.jobId t (callOf item account) item.region rfl).abort scope now
      hjobs, hrow, r, (mem_abortedStore scope now hjobs.ended ?_).2 hr, hjob, hrest⟩
    simp [hjob]
  ran := by
    rintro u run done ⟨hjobs, hrow, r, hr, hrest⟩ hrun
    refine ⟨(stable_jobsKept item.jobId t (callOf item account) item.region rfl).ran hjobs hrun,
      hrow, ?_⟩
    by_cases hrd : r = done
    · exact ⟨r, hrd ▸ Table.mem_put_self _ _, hrest⟩
    · exact ⟨r, (Table.mem_put_put hrun.started hrun.same hrd).2 hr, hrest⟩

/-- The first job of a region leaves an ended run of the call, or loses its start and fails. -/
theorem runJob_has {item : WorkItem} {account : Account} {t : Store} {rs rs' : RegionState}
    {plan : JobPlan} (hkept : JobsKept item.jobId t rs.collect.session.working)
    (hcommitted : rs.collect.session.committed = t)
    (h : runJob SourceRuns.startRun (callOf item account) item.region rs plan = .ok rs') :
    Keeping (fun u => JobsKept item.jobId t u ∧ Has item account u) t rs'.collect := by
  have hstable := stable_jobsKept item.jobId t (callOf item account) item.region rfl
  simp only [runJob] at h
  split at h
  · cases h
  · rename_i out hout
    cases h
    obtain ⟨hcommitted', hlost | ⟨u, run, done, hu, hrun, hsame⟩⟩ := runRegionJob_cases hout
    · refine ⟨?_, fun hgood => ?_⟩
      · rw [addOutcome_session, hcommitted', hcommitted]
      · rcases hgood with hnil | hstart
        · rw [(addOutcome_errors_nil hnil).2] at hlost
          cases hlost.2
        · rw [addOutcome_session, hlost.1, hcommitted]
          exact hstart
    · refine ⟨?_, fun _ => ?_⟩
      · rw [addOutcome_session, hcommitted', hcommitted]
      · have hu : JobsKept item.jobId t u := by
          rcases hu with rfl | ⟨scope, now, rfl⟩
          · exact hkept
          · exact hstable.abort scope now hkept
        rw [addOutcome_session]
        refine (stable_has item t account).congr ⟨hstable.ran hu hrun, hrun.account, done,
          Table.mem_put_self _ _, hrun.jobId, hrun.accountId, hrun.region, hrun.ended⟩ hsame

/-- A collection that succeeds has committed a run of its scope, unless it is dry. -/
theorem processItem_ran (item : WorkItem) (world : World) {t : Store} (ht : Ended t)
    (htypes : item.resourceTypes ≠ some []) (hdry : item.dryRun = false)
    (hok : (processItem item world t).2 = .ok []) :
    ∃ a, RowOf (processItem item world t).1 item.awsAccountId a ∧
      ∃ r ∈ (processItem item world t).1.sourceRuns, r.jobId = some item.jobId ∧
        r.accountId = a.id ∧ r.region = item.region := by
  rcases processItem_cases item world t with ⟨_, hraised⟩ |
    ⟨s, account, plan, c₀, c, haccount, hsession, herrors, hzero, hregion, hjobs, hc, hresult, hend⟩
  · exact absurd hok hraised
  · have hnil : c.errors = [] := by
      rw [hresult] at hok
      exact Except.ok.inj hok
    have hkept : s.committed = t ∧ JobsKept item.jobId t s.working := by
      rcases getOrCreate_cases haccount with ⟨rfl, _⟩ | ⟨rfl, _⟩
      · exact ⟨rfl, JobsKept.refl ht _⟩
      · exact ⟨rfl, (JobsKept.refl ht _).of_eq rfl rfl⟩
    obtain ⟨hcommitted, hworking⟩ := hkept
    obtain ⟨hself, hcreated⟩ := scopeKept_start haccount
    have hstore : SameJobs c.session.working (processItem item world t).1 := by
      rcases hend with ⟨hdry', _⟩ | ⟨_, hstore⟩
      · rw [hdry] at hdry'
        cases hdry'
      · exact hstore
    have hscope : ScopeKept item t account (processItem item world t).1 := by
      have hstable := stable_scopeKept item t account
      have hstart : Keeping (fun u => JobsKept item.jobId t u ∧ ScopeKept item t account u) t c₀ :=
        ⟨by rw [hsession, hcommitted], fun _ => by rw [hsession]; exact ⟨hworking, hcreated⟩⟩
      have hend := Stable.collectRegion (hregion ▸ hstable) hstart hc
      exact (hstable.congr (hend.working (.inl hnil)) hstore).2
    have hrun : Has item account (processItem item world t).1 := by
      have hstable := stable_has item t account
      rcases collectRegion_cases hc with ⟨hopen, _⟩ | ⟨_, rs, c₁, hrs, hcorrelated, rfl⟩
      · rw [hzero] at hopen
        cases hopen
      · obtain ⟨first, rest, hplan⟩ := List.exists_cons_of_ne_nil (hjobs htypes)
        rw [hplan, hregion] at hrs
        obtain ⟨rs₁, hfirst, hrest⟩ := Loop.foldlM_cons_ok.1 hrs
        have hran := runJob_has (t := t) (by rw [hsession]; exact hworking)
          (by rw [hsession, hcommitted]) hfirst
        have hall := hstable.correlate (hstable.runJobs hran hrest) hcorrelated
        exact (hstable.congr (hall.working (.inl hnil)) hstore).2
    obtain ⟨hrow, r, hr, hjob, haccountId, hregion, _⟩ := hrun
    exact ⟨account, rowOf_account haccount hscope hrow, r, hr, hjob, haccountId, hregion⟩

/-- A dry collection commits nothing. -/
theorem processItem_dry {item : WorkItem} (hdry : item.dryRun = true) (world : World) (t : Store) :
    (processItem item world t).1 = t := by
  rcases processItem_cases item world t with ⟨hsame, _⟩ |
    ⟨s, account, plan, c₀, c, haccount, hsession, herrors, hzero, _, _, hc, _, hend⟩
  · exact hsame
  · have hcommitted : s.committed = t := by
      rcases getOrCreate_cases haccount with ⟨rfl, _⟩ | ⟨rfl, _⟩ <;> rfl
    have hany : Stable (callOf item account) plan.region fun _ => True :=
      ⟨fun _ _ => trivial, fun _ _ _ => trivial, fun _ _ => trivial⟩
    have hstart : Keeping (fun _ => True) t c₀ := ⟨by rw [hsession, hcommitted], fun _ => trivial⟩
    rcases hend with ⟨_, hstore⟩ | ⟨hwet, _⟩
    · exact hstore.trans (hany.collectRegion hstart hc).committed
    · rw [hdry] at hwet
      cases hwet

/-! ## Complete jobs -/

/-- The runs of a job of `items` are of the scopes of its items, and the rows of their accounts say
which. -/
def Covered (items : List WorkItem) (job : Uuid) (t : Store) : Prop :=
  ∀ r ∈ t.sourceRuns, r.jobId = some job →
    ∃ item ∈ items, item.region = r.region ∧ ∃ a, RowOf t item.awsAccountId a ∧ r.accountId = a.id

/-- An item's scope has a run of the job. -/
def Ran (job : Uuid) (t : Store) (item : WorkItem) : Prop :=
  ∃ a, RowOf t item.awsAccountId a ∧
    ∃ r ∈ t.sourceRuns, r.jobId = some job ∧ r.accountId = a.id ∧ r.region = item.region

def runScope (r : SourceRun) : Uuid × String := (r.accountId, r.region)

/-- The scope of an item that a run's scope stands for. -/
def externalScope (t : Store) (scope : Uuid × String) : String × String :=
  (((t.accounts.get? scope.1).map (·.externalId)).getD "", scope.2)

theorem externalScope_of_rowOf {t : Store} {a : Account} {externalId : String}
    (ha : RowOf t externalId a) (region : String) :
    externalScope t (a.id, region) = (externalId, region) := by
  have hget : t.accounts.get? a.id = some a := Table.get?_eq_some.2 ⟨ha.1, rfl⟩
  simp [externalScope, hget, ha.2.1]

section

variable {items : List WorkItem} {job : Uuid} {t : Store}

def runScopes (t : Store) (job : Uuid) : Finset (Uuid × String) :=
  ((listRunsForJob t job).map runScope).toFinset

theorem mem_runScopes {scope : Uuid × String} : scope ∈ runScopes t job ↔
    ∃ r ∈ t.sourceRuns, r.jobId = some job ∧ runScope r = scope := by
  simp [runScopes, listRunsForJob, and_assoc, Table.mem_def]

theorem Covered.row (h : Covered items job t) {scope : Uuid × String}
    (hscope : scope ∈ runScopes t job) :
    ∃ item ∈ items, ∃ a, RowOf t item.awsAccountId a ∧ scope = (a.id, item.region) := by
  obtain ⟨r, hr, hjob, rfl⟩ := mem_runScopes.1 hscope
  obtain ⟨item, hitem, hregion, a, ha, haccount⟩ := h r hr hjob
  exact ⟨item, hitem, a, ha, by rw [runScope, haccount, hregion]⟩

theorem Covered.injOn (h : Covered items job t) :
    Set.InjOn (externalScope t) (runScopes t job : Set (Uuid × String)) := by
  intro scope hscope scope' hscope' heq
  obtain ⟨item, _, a, ha, rfl⟩ := h.row hscope
  obtain ⟨item', _, b, hb, rfl⟩ := h.row hscope'
  rw [externalScope_of_rowOf ha, externalScope_of_rowOf hb, Prod.mk.injEq] at heq
  have hab : b = a := ha.2.2 b hb.1 (hb.2.1.trans heq.1.symm)
  rw [hab, heq.2]

theorem Covered.mem_image (h : Covered items job t) {item : WorkItem} :
    item.scope ∈ (runScopes t job).image (externalScope t) ↔ Ran job t item := by
  constructor
  · intro hmem
    obtain ⟨scope, hscope, heq⟩ := Finset.mem_image.1 hmem
    obtain ⟨item', _, a, ha, rfl⟩ := h.row hscope
    obtain ⟨r, hr, hjob, hrun⟩ := mem_runScopes.1 hscope
    rw [externalScope_of_rowOf ha, WorkItem.scope, Prod.mk.injEq] at heq
    rw [runScope, Prod.mk.injEq] at hrun
    exact ⟨a, heq.1 ▸ ha, r, hr, hjob, hrun.1, hrun.2.trans heq.2⟩
  · rintro ⟨a, ha, r, hr, hjob, haccount, hregion⟩
    refine Finset.mem_image.2 ⟨runScope r, mem_runScopes.2 ⟨r, hr, hjob, rfl⟩, ?_⟩
    rw [runScope, haccount, hregion]
    exact externalScope_of_rowOf ha item.region

theorem Covered.image_subset (h : Covered items job t) :
    (runScopes t job).image (externalScope t) ⊆ (items.map WorkItem.scope).toFinset := by
  intro scope hscope
  obtain ⟨found, hfound, rfl⟩ := Finset.mem_image.1 hscope
  obtain ⟨item, hitem, a, ha, rfl⟩ := h.row hfound
  rw [externalScope_of_rowOf ha]
  exact List.mem_toFinset.2 (List.mem_map_of_mem hitem)

/-- When none of its runs is running, a job is complete when they have scopes enough. -/
theorem isJobComplete_card (ht : Ended t) (n : Nat) :
    isJobComplete t job n = true ↔ n ≤ (runScopes t job).card := by
  have hended : ((listRunsForJob t job).any fun r => r.status = .running) = false := by
    rw [List.any_eq_false]
    intro r hr hrunning
    obtain ⟨hmem, hjob⟩ := List.mem_filter.1 hr
    have hne : r.jobId ≠ none := by simp [of_decide_eq_true hjob]
    exact ht r hmem hne (of_decide_eq_true hrunning)
  rw [runScopes, List.card_toFinset, isJobComplete, hended]
  exact decide_eq_true_iff

/-- A job with fewer runs is no more complete. -/
theorem isJobComplete_mono {u : Store} (ht : Ended t) (hu : Ended u) {n : Nat}
    (hsub : ∀ r ∈ u.sourceRuns, r.jobId = some job → r ∈ t.sourceRuns)
    (h : isJobComplete u job n = true) : isJobComplete t job n = true := by
  rw [isJobComplete_card hu] at h
  rw [isJobComplete_card ht]
  refine h.trans (Finset.card_le_card fun scope hscope => ?_)
  obtain ⟨r, hr, hjob, hrun⟩ := mem_runScopes.1 hscope
  exact mem_runScopes.2 ⟨r, hsub r hr hjob, hjob, hrun⟩

/-- A job is complete when every item's scope has a run and no two items have one scope. -/
theorem isJobComplete_iff (h : Covered items job t) (ht : Ended t) :
    isJobComplete t job items.length = true ↔
      (items.map WorkItem.scope).Nodup ∧ ∀ item ∈ items, Ran job t item := by
  have hcount : isJobComplete t job items.length = true ↔
      items.length ≤ ((runScopes t job).image (externalScope t)).card := by
    rw [Finset.card_image_of_injOn h.injOn]
    exact isJobComplete_card ht _
  have hle := Finset.card_le_card h.image_subset
  have hlength : (items.map WorkItem.scope).toFinset.card ≤ items.length :=
    (List.toFinset_card_le _).trans (List.length_map _).le
  rw [hcount]
  constructor
  · intro hcomplete
    have hnodup : (items.map WorkItem.scope).Nodup := by
      have hcard : (items.map WorkItem.scope).toFinset.card = (items.map WorkItem.scope).length := by
        rw [List.length_map]
        omega
      exact Multiset.toFinset_card_eq_card_iff_nodup.1 hcard
    refine ⟨hnodup, fun item hitem => h.mem_image.1 ?_⟩
    rw [Finset.eq_of_subset_of_card_le h.image_subset (hlength.trans hcomplete)]
    exact List.mem_toFinset.2 (List.mem_map_of_mem hitem)
  · rintro ⟨hnodup, hran⟩
    rw [← List.length_map WorkItem.scope, ← List.toFinset_card_of_nodup hnodup]
    refine Finset.card_le_card fun scope hscope => ?_
    obtain ⟨item, hitem, rfl⟩ := List.mem_map.1 (List.mem_toFinset.1 hscope)
    exact h.mem_image.2 (hran item hitem)

end

end CollectJobs

end Constat
