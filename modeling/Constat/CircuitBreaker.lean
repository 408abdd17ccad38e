import Mathlib.Data.List.Nodup
import Constat.Lib.Breaker
import Constat.LostStart

/-!
# CircuitBreaker

The regions a collection attempts, skips and reports. `collect_target` counts the consecutive
regions with an error and skips the rest once there are enough of them; but what it reports as
scanned are the regions it was asked for, the skipped ones among them.

* `Realizes`       — the regions that a call attempts fail as a pattern says.
* `Journal`        — the writes of a session, whatever became of them.
* `BreakerLaw`     — the skipped regions are those after the first run of failures, nothing records
                     a run of theirs, and the rest are the scanned ones.
* `breakerLaw_iff` — the law holds exactly when no run of failures ends before the last region.
-/

namespace Constat

open SourceRuns (startRun)
open Breaker (AfterRun)

namespace Collector

/-! ## The outcomes of the regions -/

/-- Each of the regions attempted, from the `i`th on, has an error exactly when `failing` says
so. -/
def Shows (call : Call) (max : Int) (failing : Nat → Bool) :
    Nat → CollectState → List RegionPlan → Prop
  | _, _, [] => True
  | i, c, plan :: plans =>
    (c.consecutiveErrors < max → ∀ rs,
      plan.jobs.foldlM (runJob startRun call plan.region) ⟨c, false, .empty⟩ = .ok rs →
        rs.hadError = failing i) ∧
    ∀ c', collectRegion startRun call max c plan = .ok c' → Shows call max failing (i + 1) c' plans

/-- The pattern of a call. -/
def Realizes (target : TargetAccount) (options : Options) (world : World) (s : DbSession)
    (failing : Nat → Bool) : Prop :=
  ∀ jobs s₀ account, resolveJobs target = .ok jobs →
    Accounts.getOrCreate s target.awsAccountId target.name = .ok (s₀, account) →
      Shows ⟨account.id, options.dryRun, options.force, options.jobId⟩
        options.maxConsecutiveRegionErrors failing 0
        ⟨s₀, s₀.working.resources.next, 0, 0, 0, [], [], 0⟩ (planOf world jobs (regionsOf target))

theorem Shows.congr {call : Call} {max : Int} {failing failing' : Nat → Bool}
    {plans : List RegionPlan} : ∀ {i : Nat} {c : CollectState},
      (∀ j, i ≤ j → failing j = failing' j) → Shows call max failing i c plans →
        Shows call max failing' i c plans := by
  induction plans with
  | nil => exact fun _ _ => trivial
  | cons plan plans ih =>
    intro i c heq h
    refine ⟨fun hclosed rs hrs => ?_, fun c' hc' => ?_⟩
    · exact (h.1 hclosed rs hrs).trans (heq i (Nat.le_refl i))
    · exact ih (fun j hj => heq j (Nat.le_of_succ_le hj)) (h.2 c' hc')

/-- Every loop shows some pattern. -/
theorem exists_shows (call : Call) (max : Int) (plans : List RegionPlan) :
    ∀ (i : Nat) (c : CollectState), ∃ failing, Shows call max failing i c plans := by
  induction plans with
  | nil => exact fun _ _ => ⟨fun _ => false, trivial⟩
  | cons plan plans ih =>
    intro i c
    obtain ⟨rest, hrest⟩ : ∃ rest, ∀ c', collectRegion startRun call max c plan = .ok c' →
        Shows call max rest (i + 1) c' plans := by
      cases hc' : collectRegion startRun call max c plan with
      | error e => exact ⟨fun _ => false, fun _ h => by cases h⟩
      | ok c' =>
        obtain ⟨rest, hrest⟩ := ih (i + 1) c'
        exact ⟨rest, fun _ h => by cases h; exact hrest⟩
    obtain ⟨b, hb⟩ : ∃ b, ∀ rs, plan.jobs.foldlM (runJob startRun call plan.region)
        ⟨c, false, .empty⟩ = .ok rs → rs.hadError = b := by
      cases hrs : plan.jobs.foldlM (runJob startRun call plan.region) ⟨c, false, .empty⟩ with
      | error e => exact ⟨false, fun _ h => by cases h⟩
      | ok rs => exact ⟨rs.hadError, fun _ h => by cases h; rfl⟩
    refine ⟨fun j => if j = i then b else rest j, fun _ rs hrs => ?_, fun c' hc' => ?_⟩
    · exact (hb rs hrs).trans (if_pos rfl).symm
    · refine (hrest c' hc').congr fun j hj => ?_
      have hne : j ≠ i := by omega
      exact (if_neg hne).symm

/-! ## The journal -/

/-- The writes of a session: those rolled back, those committed and those still pending. -/
def Journal (s : DbSession) : List Write := s.dropped ++ s.durable ++ s.pending

/-- No write of `s'` that `s` has not made is about a run of the region. -/
def Spares (region : String) (s s' : DbSession) : Prop :=
  ∀ w ∈ Journal s', w ∈ Journal s ∨ ∀ run, w = .sourceRun run → run.region ≠ region

namespace Spares

variable {region : String} {s s' s'' : DbSession}

theorem refl (region : String) (s : DbSession) : Spares region s s := fun _ hw => .inl hw

theorem trans (h : Spares region s s') (h' : Spares region s' s'') : Spares region s s'' := by
  intro w hw
  rcases h' w hw with hw | hother
  · exact h w hw
  · exact .inr hother

theorem writes (s : DbSession) (ws : List Write)
    (h : ∀ w ∈ ws, ∀ run, w = .sourceRun run → run.region ≠ region) :
    Spares region s (s.writes ws) := by
  intro w hw
  simp only [Journal, Session.writes_dropped, Session.writes_durable, Session.writes_pending,
    ← List.append_assoc] at hw
  rcases List.mem_append.1 hw with hw | hw
  · exact .inl hw
  · exact .inr (h w hw)

theorem write (s : DbSession) {w : Write} (h : ∀ run, w = .sourceRun run → run.region ≠ region) :
    Spares region s (s.write w) :=
  writes s [w] fun _ hv run heq => h run ((List.mem_singleton.1 hv).symm.trans heq)

theorem rollback (s : DbSession) : Spares region s s.rollback := by
  intro w hw
  simp only [Journal, Session.rollback_dropped, Session.rollback_durable, Session.rollback_pending,
    List.append_nil, List.mem_append] at hw ⊢
  tauto

theorem commit (s : DbSession) : Spares region s s.commit := by
  intro w hw
  simp only [Journal, Session.commit_dropped, Session.commit_durable, Session.commit_pending,
    List.append_nil, List.mem_append] at hw ⊢
  tauto

theorem wrote {p : Write → Bool} {n : Nat × Nat × Nat} (hp : ∀ run, p (.sourceRun run) = false)
    (h : Wrote p n s s') : Spares region s s' := by
  obtain ⟨ws, hws, rfl, _⟩ := h
  refine writes s ws fun w hw run heq => ?_
  have hrun := hws w hw
  rw [heq, hp run] at hrun
  cases hrun

end Spares

/-! ### One job -/

/-- A start writes runs of its own scope only. -/
theorem startRun_spares (region : String) (s : DbSession) (scope : Scope) (force : Bool)
    (jobId : Option Uuid) (now : Micros) (contended : Bool) (hregion : scope.region ≠ region) :
    Spares region s (startRun s scope force jobId now contended).1 ∧
      ∀ run, (startRun s scope force jobId now contended).2 = some run →
        run.region = scope.region ∧
          (startRun s scope force jobId now contended).1.working.sourceRuns.get? run.id =
            some run := by
  have hforced : Spares region s (if force then SourceRuns.abortActiveRun s scope now else s) := by
    split
    · refine Spares.writes s _ fun w hw run heq => ?_
      obtain ⟨r, hr, rfl⟩ := List.mem_map.1 hw
      cases heq
      have hscope := (of_decide_eq_true (List.mem_filter.1 hr).2).1
      have hsame : r.region = scope.region := congrArg Scope.region hscope
      exact fun h => hregion (hsame.symm.trans h)
    · exact Spares.refl region s
  simp only [startRun]
  generalize (if force then SourceRuns.abortActiveRun s scope now else s) = s₀ at hforced ⊢
  split
  · refine ⟨hforced.trans (Spares.write s₀ fun run heq => ?_), fun run hrun => ?_⟩
    · cases heq
      exact hregion
    · cases hrun
      exact ⟨rfl, get?_startedRun _ _⟩
  · exact ⟨hforced.trans (Spares.rollback _), fun run hrun => by cases hrun⟩

theorem scanWrite_no_run (run : SourceRun) : isScanWrite (.sourceRun run) = false := rfl

theorem runRegionJob_spares {call : Call} {region other : String} {s : DbSession} {fresh : Uuid}
    {plan : JobPlan} {out : JobOutcome} (hother : other ≠ region)
    (h : runRegionJob startRun call other s fresh plan = .ok out) :
    Spares region s out.state.session := by
  obtain ⟨hstart, hrun⟩ := startRun_spares region s (scopeOf call other plan.job)
    call.force call.jobId plan.script.startedAt plan.script.contended hother
  rw [runRegionJob] at h
  split at h
  · rename_i s₁ heq
    cases h
    rw [heq] at hstart
    exact hstart
  · rename_i s₁ run heq
    rw [heq] at hstart hrun
    obtain ⟨hregion, hget⟩ := hrun run rfl
    obtain ⟨s₂, status, found, error, _, hscan, hsweep, _⟩ := runScan_writes hget h
    refine (hstart.trans (Spares.wrote scanWrite_no_run hscan)).trans ?_
    refine (Spares.write s₂ fun r heq => ?_).trans (Spares.wrote scanWrite_no_run hsweep)
    cases heq
    exact fun h => hother (hregion.symm.trans h)

/-! ## One region -/

theorem addOutcome_skipped (region : String) (job : ScanJob) (rs : RegionState) (out : JobOutcome) :
    (addOutcome region job rs out).collect.regionsSkipped = rs.collect.regionsSkipped := by
  cases h : out.error <;> simp [addOutcome, h]

theorem correlate_skipped {call : Call} {now : Micros} {rs : RegionState} {c : CollectState}
    (h : correlate call now rs = .ok c) : c.regionsSkipped = rs.collect.regionsSkipped := by
  simp only [correlate] at h
  split at h
  · cases h
    rfl
  · split at h
    · cases h
    · cases h
      rfl

/-- A region is skipped, or its jobs run: only then its runs are written, and the breaker counts
whether one of them failed. -/
theorem collectRegion_spec {call : Call} {max : Int} {c c' : CollectState} {plan : RegionPlan}
    (h : collectRegion startRun call max c plan = .ok c') :
    (max ≤ c.consecutiveErrors ∧ c'.consecutiveErrors = c.consecutiveErrors ∧
      c'.regionsSkipped = c.regionsSkipped ++ [plan.region] ∧ c'.session = c.session) ∨
    (¬ max ≤ c.consecutiveErrors ∧ c'.regionsSkipped = c.regionsSkipped ∧
      (∀ region, plan.region ≠ region → Spares region c.session c'.session) ∧
      ∃ rs, plan.jobs.foldlM (runJob startRun call plan.region) ⟨c, false, .empty⟩ = .ok rs ∧
        c'.consecutiveErrors = if rs.hadError then c.consecutiveErrors + 1 else 0) := by
  rcases collectRegion_cases h with ⟨hopen, rfl⟩ | ⟨hclosed, rs, c₁, hrs, hc₁, rfl⟩
  · exact .inl ⟨hopen, rfl, rfl, rfl⟩
  · have hjobs : rs.collect.consecutiveErrors = c.consecutiveErrors ∧
        rs.collect.regionsSkipped = c.regionsSkipped ∧
        ∀ region, plan.region ≠ region → Spares region c.session rs.collect.session := by
      refine Loop.keep (fun rs : RegionState => rs.collect.consecutiveErrors = c.consecutiveErrors ∧
        rs.collect.regionsSkipped = c.regionsSkipped ∧
        ∀ region, plan.region ≠ region → Spares region c.session rs.collect.session)
        ?_ ⟨rfl, rfl, fun region _ => Spares.refl region _⟩ hrs
      rintro job _ rs rs' ⟨herrors, hskipped, hspares⟩ hjob
      rw [runJob] at hjob
      split at hjob
      · cases hjob
      · rename_i out hout
        cases hjob
        rw [addOutcome_errors, addOutcome_skipped, addOutcome_session]
        exact ⟨herrors, hskipped, fun region hne =>
          (hspares region hne).trans (runRegionJob_spares hne hout)⟩
    obtain ⟨herrors, hskipped, hspares⟩ := hjobs
    obtain ⟨_, m, hwrote, _, hcount⟩ := correlate_wrote hc₁
    refine .inr ⟨hclosed, (correlate_skipped hc₁).trans hskipped, fun region hne => ?_, rs, hrs, ?_⟩
    · exact (hspares region hne).trans (Spares.wrote scanWrite_no_run hwrote)
    · rw [hcount, herrors]

/-! ## All regions -/

/-- The regions after the first run of `n` consecutive failing ones, when the first region is the
`i`th. -/
def regionsAfterRun (failing : Nat → Bool) (n i : Nat) (regions : List String) : List String :=
  ((regions.zipIdx i).filter fun p => AfterRun failing n p.2).map (·.1)

theorem collectRegions_spec {call : Call} {failing : Nat → Bool} {n : Nat} (hn : 1 ≤ n)
    {plans : List RegionPlan} : ∀ {i : Nat} {c c' : CollectState},
      Shows call n failing i c plans → c.consecutiveErrors = Breaker.count failing n i →
      plans.foldlM (collectRegion startRun call n) c = .ok c' →
        c'.regionsSkipped =
          c.regionsSkipped ++ regionsAfterRun failing n i (plans.map (·.region)) ∧
        ∀ region, (∀ p ∈ (plans.map (·.region)).zipIdx i, p.1 = region → AfterRun failing n p.2) →
          Spares region c.session c'.session := by
  induction plans with
  | nil =>
    intro i c c' _ _ h
    cases h
    exact ⟨(List.append_nil _).symm, fun region _ => Spares.refl region _⟩
  | cons plan plans ih =>
    intro i c c' hshows hcount h
    obtain ⟨c₁, hc₁, hrest⟩ := Loop.foldlM_cons_ok.1 h
    have hopen : (n : Int) ≤ c.consecutiveErrors ↔ AfterRun failing n i := by
      rw [hcount, Int.ofNat_le]
      exact Breaker.open_iff hn i
    rcases collectRegion_spec hc₁ with
      ⟨hskip, herrors, hskipped, hsession⟩ | ⟨hattempt, hskipped, hspares, rs, hrs, herrors⟩
    · have hrun := hopen.1 hskip
      have hcount₁ : c₁.consecutiveErrors = Breaker.count failing n (i + 1) := by
        rw [herrors, hcount, Breaker.count]
        exact (if_pos ((Breaker.open_iff hn i).2 hrun)).symm
      obtain ⟨hall, hspares⟩ := ih (hshows.2 c₁ hc₁) hcount₁ hrest
      refine ⟨?_, fun region hregion => ?_⟩
      · rw [hall, hskipped]
        simp [regionsAfterRun, hrun]
      · rw [← hsession]
        exact hspares region fun p hp => hregion p (List.mem_cons_of_mem _ hp)
    · have hrun : ¬ AfterRun failing n i := fun hafter => hattempt (hopen.2 hafter)
      have hcount₁ : c₁.consecutiveErrors = Breaker.count failing n (i + 1) := by
        rw [herrors, hshows.1 (Int.not_le.1 hattempt) rs hrs, hcount, Breaker.count]
        exact (if_neg fun hle => hrun ((Breaker.open_iff hn i).1 hle)).symm
      obtain ⟨hall, hrestSpares⟩ := ih (hshows.2 c₁ hc₁) hcount₁ hrest
      refine ⟨?_, fun region hregion => ?_⟩
      · rw [hall, hskipped]
        simp [regionsAfterRun, hrun]
      · -- the region was attempted, so it is not the one to spare
        have hne : plan.region ≠ region := fun heq => hrun (hregion (_, i) List.mem_cons_self heq)
        exact (hspares region hne).trans
          (hrestSpares region fun p hp => hregion p (List.mem_cons_of_mem _ hp))

theorem planOf_regions (world : World) (jobs : List ScanJob) (regions : List String) :
    (planOf world jobs regions).map (·.region) = regions := by
  simp [planOf, Function.comp_def]

theorem mem_regionsAfterRun {failing : Nat → Bool} {n : Nat} {regions : List String}
    {region : String} : region ∈ regionsAfterRun failing n 0 regions ↔
      ∃ i, regions[i]? = some region ∧ AfterRun failing n i := by
  simp [regionsAfterRun, List.mem_zipIdx_iff_getElem?]

/-! ## The law -/

/-- `s` is the session before the call, `s'` the one after it. -/
structure BreakerLaw (failing : Nat → Bool) (n : Nat) (requested : List String) (s s' : DbSession)
    (res : CollectionResult) : Prop where
  skipped : res.regionsSkippedByBreaker = regionsAfterRun failing n 0 requested
  unrecorded : ∀ region ∈ res.regionsSkippedByBreaker, Spares region s s'
  covered : ∀ region, region ∈ requested ↔
    region ∈ res.regionsScanned ∨ region ∈ res.regionsSkippedByBreaker
  disjoint : List.Disjoint res.regionsScanned res.regionsSkippedByBreaker

theorem getOrCreate_spares {s s' : DbSession} {externalId : String} {name : Option String}
    {account : Account} (region : String)
    (h : Accounts.getOrCreate s externalId name = .ok (s', account)) : Spares region s s' := by
  rw [Accounts.getOrCreate] at h
  split at h
  · cases h
  · cases h
    exact Spares.refl region s
  · cases h
    exact Spares.write s fun run heq => by cases heq

theorem conclude_spares (target : TargetAccount) (options : Options) (regions : Nat)
    (c : CollectState) (region : String) :
    Spares region c.session (conclude target options regions c) := by
  rcases conclude_wrote target options regions c with ⟨_, heq⟩ | ⟨_, s, hwrote, heq⟩
  · rw [heq]
    exact Spares.refl region _
  · rw [heq]
    exact (Spares.wrote (fun _ => rfl) hwrote).trans (Spares.commit s)

/-- Whatever the pattern, the breaker skips what it should and records nothing of it. -/
theorem breaker_skips {target : TargetAccount} {options : Options} {world : World}
    {s s' : DbSession} {res : CollectionResult} {n : Nat} (hn : 1 ≤ n)
    (hmax : options.maxConsecutiveRegionErrors = n) (hregions : (regionsOf target).Nodup)
    (h : collectTarget target options world s = .ok (s', res)) {failing : Nat → Bool}
    (hfailing : Realizes target options world s failing) :
    res.regionsScanned = regionsOf target ∧
      res.regionsSkippedByBreaker = regionsAfterRun failing n 0 (regionsOf target) ∧
      ∀ region ∈ res.regionsSkippedByBreaker, Spares region s s' := by
  obtain ⟨jobs, s₀, account, c, hjobs, _, haccount, hloop, hout⟩ := collectTargetWith_ok h
  cases hout
  have hshows := hfailing jobs s₀ account hjobs haccount
  rw [hmax] at hshows hloop
  obtain ⟨hskipped, hspares⟩ := collectRegions_spec hn hshows rfl hloop
  rw [planOf_regions] at hskipped hspares
  refine ⟨rfl, hskipped, fun region hregion => ?_⟩
  have hmem : region ∈ c.regionsSkipped := hregion
  rw [hskipped] at hmem
  obtain ⟨i, hi, hrun⟩ := mem_regionsAfterRun.1 hmem
  refine ((getOrCreate_spares region haccount).trans (hspares region ?_)).trans
    (conclude_spares target options _ c region)
  rintro ⟨region', j⟩ hp rfl
  -- distinct regions: the region is requested at one place only
  have hj : (regionsOf target)[j]? = some region' := List.mem_zipIdx_iff_getElem?.1 hp
  obtain ⟨hlt, _⟩ := List.getElem?_eq_some_iff.1 hi
  have hij : i = j := (List.getElem?_inj hlt hregions).1 (hi.trans hj.symm)
  exact hij ▸ hrun

/-- A call that returns has a pattern; and it keeps the law exactly when none of its requested
regions comes after a run of `n` consecutive failing ones. -/
theorem breakerLaw_iff {target : TargetAccount} {options : Options} {world : World}
    {s s' : DbSession} {res : CollectionResult} {n : Nat} (hn : 1 ≤ n)
    (hmax : options.maxConsecutiveRegionErrors = n) (hregions : (regionsOf target).Nodup)
    (h : collectTarget target options world s = .ok (s', res)) :
    (∃ failing, Realizes target options world s failing) ∧
      ∀ failing, Realizes target options world s failing →
        (BreakerLaw failing n (regionsOf target) s s' res ↔
          ∀ i < (regionsOf target).length, ¬ AfterRun failing n i) := by
  constructor
  · obtain ⟨jobs, s₀, account, _, hjobs, _, haccount, _, _⟩ := collectTargetWith_ok h
    obtain ⟨failing, hshows⟩ := exists_shows
      ⟨account.id, options.dryRun, options.force, options.jobId⟩
      options.maxConsecutiveRegionErrors (planOf world jobs (regionsOf target)) 0
      ⟨s₀, s₀.working.resources.next, 0, 0, 0, [], [], 0⟩
    refine ⟨failing, fun jobs' s₁ account' hjobs' haccount' => ?_⟩
    rw [hjobs] at hjobs'
    rw [haccount] at haccount'
    cases hjobs'
    cases haccount'
    exact hshows
  · intro failing hfailing
    obtain ⟨hscanned, hskipped, hspares⟩ := breaker_skips hn hmax hregions h hfailing
    constructor
    · intro law i hi hrun
      have hget := List.getElem?_eq_getElem hi
      have hmem : (regionsOf target)[i] ∈ res.regionsSkippedByBreaker := by
        rw [hskipped]
        exact mem_regionsAfterRun.2 ⟨i, hget, hrun⟩
      refine law.disjoint ?_ hmem
      rw [hscanned]
      exact List.getElem_mem hi
    · intro hnone
      have hempty : res.regionsSkippedByBreaker = [] := by
        rw [hskipped, List.eq_nil_iff_forall_not_mem]
        intro region hregion
        obtain ⟨i, hi, hrun⟩ := mem_regionsAfterRun.1 hregion
        obtain ⟨hlt, _⟩ := List.getElem?_eq_some_iff.1 hi
        exact hnone i hlt hrun
      refine ⟨hskipped, hspares, fun region => ?_, ?_⟩
      · simp [hscanned, hempty]
      · simp [hempty]

/-! ## Two regions that fail, and a third one -/

def threeRegions : TargetAccount where
  awsAccountId := "123456789012"
  roleArn := none
  externalId := none
  name := none
  regions := some ["eu-west-1", "eu-west-3", "us-east-1"]
  resourceTypes := some ["rds"]

def byDefault : Options := ⟨false, false, defaultMaxConsecutiveRegionErrors, none⟩

def denied : World where
  assumeRole := none
  job _ _ := ⟨false, 10, [], .clientError "AccessDenied" "nope", 13, 14⟩
  correlatedAt _ := 15

theorem denied_result : ((collectTarget threeRegions byDefault denied
    (Session.begin Store.empty)).map fun out =>
      (out.2.regionsScanned, out.2.regionsSkippedByBreaker)) =
    .ok (["eu-west-1", "eu-west-3", "us-east-1"], ["us-east-1"]) := by decide +kernel

theorem denied_returns : ∃ s' res, collectTarget threeRegions byDefault denied
    (Session.begin Store.empty) = .ok (s', res) ∧
      (res.regionsScanned, res.regionsSkippedByBreaker) =
        (["eu-west-1", "eu-west-3", "us-east-1"], ["us-east-1"]) := by
  have h := denied_result
  cases hcall : collectTarget threeRegions byDefault denied (Session.begin Store.empty) with
  | error e =>
    rw [hcall] at h
    cases h
  | ok out =>
    rw [hcall] at h
    exact ⟨out.1, out.2, rfl, Except.ok.inj h⟩

/-- The call goes through, and has its result. -/
theorem three_regions_denied : ∃ s' res, collectTarget threeRegions byDefault denied
    (Session.begin Store.empty) = .ok (s', res) ∧
      ∀ failing, Realizes threeRegions byDefault denied (Session.begin Store.empty) failing →
        (BreakerLaw failing 2 (regionsOf threeRegions) (Session.begin Store.empty) s' res ↔
          ∀ i < 3, ¬ AfterRun failing 2 i) := by
  obtain ⟨s', res, hcall, _⟩ := denied_returns
  exact ⟨s', res, hcall, (breakerLaw_iff (by decide) rfl (by decide) hcall).2⟩

/-- The third region is skipped and reported as scanned. -/
theorem scanned_and_skipped : ∃ s' res, collectTarget threeRegions byDefault denied
    (Session.begin Store.empty) = .ok (s', res) ∧
      ∀ failing, ¬ BreakerLaw failing 2 (regionsOf threeRegions) (Session.begin Store.empty) s' res
    := by
  obtain ⟨s', res, hcall, hresult⟩ := denied_returns
  obtain ⟨hscanned, hskipped⟩ := Prod.mk.inj hresult
  refine ⟨s', res, hcall, fun failing law => ?_⟩
  refine law.disjoint (a := "us-east-1") ?_ ?_
  · rw [hscanned]
    decide
  · rw [hskipped]
    decide

end Collector

end Constat
