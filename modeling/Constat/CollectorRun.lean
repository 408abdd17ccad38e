import Mathlib.Algebra.Group.Prod
import Constat.Collector
import Constat.Lib.Loop

/-!
# CollectorRun

What one job of a collection writes. `Wrote p n` says of two states of a session that the second
is the first after some writes, all of the kind `p`, among them as many upserted resources,
observations and facts as `n` says; the counters of a job are that number (`runScan_spec`).
-/

namespace Constat

namespace Collector

/-! ## Counting writes -/

/-- An insert or a bump of a resource; the sweep's writes are not among these. -/
def isUpsert : Write → Bool
  | .resource r => r.retiredAt.isNone
  | _ => false

def isObservation : Write → Bool
  | .observation _ => true
  | _ => false

def isFact : Write → Bool
  | .fact _ => true
  | _ => false

def tally (ws : List Write) : Nat × Nat × Nat :=
  (ws.countP isUpsert, ws.countP isObservation, ws.countP isFact)

@[simp] theorem tally_nil : tally [] = 0 := rfl

@[simp] theorem tally_append (ws ws' : List Write) :
    tally (ws ++ ws') = tally ws + tally ws' := by
  simp [tally, List.countP_append]

/-- The writes of a job. -/
def isJobWrite : Write → Bool
  | .resource _ | .observation _ | .fact _ | .sourceRun _ => true
  | _ => false

/-- The ones that are not about its run. -/
def isScanWrite : Write → Bool
  | .resource _ | .observation _ | .fact _ => true
  | _ => false

theorem isJobWrite_of_isScanWrite (w : Write) (h : isScanWrite w = true) :
    isJobWrite w = true := by
  cases w <;> first | rfl | cases h

def Wrote (p : Write → Bool) (n : Nat × Nat × Nat) (s s' : DbSession) : Prop :=
  ∃ ws, (∀ w ∈ ws, p w = true) ∧ s' = s.writes ws ∧ tally ws = n

namespace Wrote

variable {p : Write → Bool} {n m : Nat × Nat × Nat} {s s' s'' : DbSession}

theorem refl (p : Write → Bool) (s : DbSession) : Wrote p 0 s s :=
  ⟨[], fun w hw => (by cases hw), rfl, rfl⟩

theorem trans (h : Wrote p n s s') (h' : Wrote p m s' s'') : Wrote p (n + m) s s'' := by
  obtain ⟨ws, hp, rfl, rfl⟩ := h
  obtain ⟨ws', hp', rfl, rfl⟩ := h'
  refine ⟨ws ++ ws', fun w hw => ?_, by rw [Session.writes_append], tally_append ws ws'⟩
  rcases List.mem_append.1 hw with hw | hw
  · exact hp w hw
  · exact hp' w hw

theorem single (s : DbSession) {w : Write} (hw : p w = true) :
    Wrote p (tally [w]) s (s.write w) :=
  ⟨[w], fun v hv => by rw [List.mem_singleton.1 hv]; exact hw, rfl, rfl⟩

theorem mono {q : Write → Bool} (hpq : ∀ w, p w = true → q w = true) (h : Wrote p n s s') :
    Wrote q n s s' := by
  obtain ⟨ws, hp, hs, hn⟩ := h
  exact ⟨ws, fun w hw => hpq w (hp w hw), hs, hn⟩

theorem writesOnly (h : Wrote p n s s') : Session.WritesOnly p s s' := by
  obtain ⟨ws, hp, hs, _⟩ := h
  exact ⟨ws, hp, hs⟩

end Wrote

/-! ## The repositories -/

theorem upsertResource_wrote {s s' : DbSession} {key : Resources.NaturalKey} {now : Micros}
    {fresh : Uuid} {r : Resource}
    (h : Resources.upsertResource s key now fresh = .ok (s', r)) :
    Wrote isScanWrite (1, 0, 0) s s' := by
  simp only [Resources.upsertResource] at h
  split at h
  · cases h
  · cases h; exact Wrote.single s rfl
  · cases h; exact Wrote.single s rfl

theorem insertObservation_wrote (s : DbSession) (o : Collectors.Observation) (run : Option Uuid) :
    Wrote isScanWrite (0, 1, 0) s (Observations.insertObservation s o run) :=
  Wrote.single s rfl

theorem tally_facts (rows : List FactRow) : tally (rows.map .fact) = (0, 0, rows.length) := by
  induction rows with
  | nil => rfl
  | cons row rows ih =>
    have hcons : tally ((row :: rows).map .fact) = (0, 0, 1) + tally (rows.map .fact) :=
      tally_append [.fact row] (rows.map .fact)
    rw [hcons, ih]
    simp [Nat.add_comm]

theorem upsertFacts_wrote {s s' : DbSession} {facts : List Fact} {run : Option Uuid}
    {inserted updated : Nat}
    (h : Facts.upsertFacts s facts run = .ok (s', inserted, updated)) :
    Wrote isScanWrite (0, 0, inserted + updated) s s' := by
  simp only [Facts.upsertFacts] at h
  split at h
  · cases h
  · rename_i b hb
    split at h
    · cases h
      have hlength : b.rows.length = b.inserted + b.updated := by
        refine Loop.keep (fun b => b.rows.length = b.inserted + b.updated) ?_ rfl hb
        intro f _ b b' hlen hf
        simp only [Facts.addFact] at hf
        split at hf
        · cases hf
        · cases hf; simp [hlen]; omega
        · cases hf; simp [hlen]; omega
      refine ⟨b.rows.map .fact, fun w hw => ?_, rfl, ?_⟩
      · obtain ⟨row, _, rfl⟩ := List.mem_map.1 hw
        rfl
      · rw [tally_facts, hlength]
    · cases h

theorem retireStaleResources_wrote (s : DbSession) (scope : Scope) (now : Micros) :
    Wrote isScanWrite 0 s (Resources.retireStaleResources s scope now).1 := by
  refine ⟨_, fun w hw => ?_, rfl, ?_⟩
  · obtain ⟨r, _, rfl⟩ := List.mem_map.1 hw
    rfl
  · generalize Resources.staleResources s.working scope = stale
    induction stale with
    | nil => rfl
    | cons r stale ih =>
      have hcons : tally ((r :: stale).map fun r => .resource (Resources.retired now r)) =
          0 + tally (stale.map fun r => .resource (Resources.retired now r)) :=
        tally_append [.resource (Resources.retired now r)] _
      rw [hcons, ih]
      rfl

/-! ## One job -/

def JobState.counts (st : JobState) : Nat × Nat × Nat := (st.resources, st.observations, st.facts)

/-- `st'` is `st` with more of its scan done. -/
def Scanned (st st' : JobState) : Prop :=
  ∃ n, Wrote isScanWrite n st.session st'.session ∧ st'.counts = st.counts + n

theorem Scanned.trans {st st' st'' : JobState} (h : Scanned st st') (h' : Scanned st' st'') :
    Scanned st st'' := by
  obtain ⟨n, hw, hn⟩ := h
  obtain ⟨m, hw', hm⟩ := h'
  exact ⟨n + m, hw.trans hw', by rw [hm, hn, add_assoc]⟩

theorem describeItem_scanned {call : Call} {job : ScanJob} {run : SourceRun} {st st' : JobState}
    {id : Uuid} {raw : Raw} {observedAt : Micros}
    (h : describeItem call job run st id raw observedAt = .ok st') : Scanned st st' := by
  simp only [describeItem] at h
  split at h
  · cases h
    exact ⟨0, Wrote.refl _ _, (add_zero _).symm⟩
  · split at h
    · cases h
    · rename_i s inserted updated hfacts
      cases h
      refine ⟨_, (insertObservation_wrote _ _ _).trans (upsertFacts_wrote hfacts), ?_⟩
      simp [JobState.counts]

theorem scanItem_scanned {call : Call} {region : String} {job : ScanJob} {run : SourceRun}
    {st st' : JobState} {item : ScannedItem}
    (h : scanItem call region job run st item = .ok st') : Scanned st st' := by
  simp only [scanItem] at h
  split at h
  · cases h
  · split at h
    · cases h
    · rename_i s r hupsert
      have hfirst : Scanned st (st.upserted s r.id (Collectors.tagRegion region item.raw)) :=
        ⟨_, upsertResource_wrote hupsert, by simp [JobState.upserted, JobState.counts]⟩
      exact hfirst.trans (describeItem_scanned h)

theorem scanItems_scanned {call : Call} {region : String} {job : ScanJob} {run : SourceRun}
    {st st' : JobState} {items : List ScannedItem}
    (h : items.foldlM (scanItem call region job run) st = .ok st') : Scanned st st' := by
  refine Loop.keep (fun st' => Scanned st st') ?_ ?_ h
  · intro item _ b b' hb hitem
    exact hb.trans (scanItem_scanned hitem)
  · exact ⟨0, Wrote.refl _ _, (add_zero _).symm⟩

/-- Nothing a scan writes touches the accounts or the source runs. -/
theorem Wrote.frame {n : Nat × Nat × Nat} {s s' : DbSession} (h : Wrote isScanWrite n s s') :
    s'.working.accounts = s.working.accounts ∧
      s'.working.sourceRuns = s.working.sourceRuns := by
  constructor
  · exact h.writesOnly.frame Store.accounts fun w hw t => by cases w <;> first | rfl | cases hw
  · exact h.writesOnly.frame Store.sourceRuns fun w hw t => by cases w <;> first | rfl | cases hw

/-- The scan ends with an error that the job records. -/
def ScanEnd.fails : ScanEnd → Bool
  | .completed => false
  | _ => true

theorem regionError_isSome {e : ScanEnd} {regionError : Option String}
    (h : e.regionError = .ok regionError) : regionError.isSome = e.fails := by
  cases e with
  | completed => cases h; rfl
  | clientError code text => cases h; rfl
  | botoCoreError cls text => cases h; rfl
  | raised e => cases h

/-- What a job whose run is started writes: its scan, the end of its run, the sweep. -/
theorem runScan_writes {call : Call} {region : String} {plan : JobPlan} {run : SourceRun}
    {s : DbSession} {fresh : Uuid} {out : JobOutcome}
    (hrun : s.working.sourceRuns.get? run.id = some run)
    (h : runScan call region plan run (.start s fresh) = .ok out) :
    ∃ s₁ status count error, status ≠ .running ∧ Wrote isScanWrite out.state.counts s s₁ ∧
      Wrote isScanWrite 0 (s₁.write (.sourceRun
        (SourceRuns.finished run status count error plan.script.finishedAt))) out.state.session ∧
      out.error.isSome = plan.script.ending.fails := by
  simp only [runScan] at h
  split at h
  · cases h
  · rename_i st hst
    split at h
    · cases h
    · rename_i regionError hend
      cases h
      obtain ⟨n, hw, hn⟩ := scanItems_scanned hst
      have hcounts : st.counts = n := by rw [hn]; exact zero_add n
      have hget : st.session.working.sourceRuns.get? run.id = some run := by
        rw [hw.frame.2]; exact hrun
      let status := SourceRuns.jobStatus regionError.isNone regionError
      let done := SourceRuns.finished run status (some st.resources) regionError
        plan.script.finishedAt
      have hfinish : SourceRuns.finishRun st.session run.id status (some st.resources) regionError
          plan.script.finishedAt = st.session.write (.sourceRun done) :=
        SourceRuns.finishRun_eq hget _ _ _ _
      have hsweep : ∃ s₄, Wrote isScanWrite 0 (st.session.write (.sourceRun done)) s₄ ∧
          finishJob call region plan run st regionError =
            ⟨{ st with session := s₄ }, regionError⟩ := by
        simp only [finishJob]
        rw [hfinish]
        split
        · exact ⟨_, retireStaleResources_wrote _ _ _, rfl⟩
        · exact ⟨_, Wrote.refl _ _, rfl⟩
      obtain ⟨s₄, hw₄, hout⟩ := hsweep
      rw [hout]
      refine ⟨st.session, status, some st.resources, regionError,
        SourceRuns.jobStatus_ne_running _ _, ?_, hw₄, regionError_isSome hend⟩
      rw [← hcounts] at hw
      exact hw

/-- A job whose run is started counts what it writes, and ends with its run finished. -/
structure Ran (s : DbSession) (run : SourceRun) (plan : JobPlan) (out : JobOutcome) : Prop where
  wrote : Wrote isJobWrite out.state.counts s out.state.session
  accounts : out.state.session.working.accounts = s.working.accounts
  runs : ∃ r, r.id = run.id ∧ r.status ≠ .running ∧
    out.state.session.working.sourceRuns = s.working.sourceRuns.put r
  error : out.error.isSome = plan.script.ending.fails

theorem runScan_ran {call : Call} {region : String} {plan : JobPlan} {run : SourceRun}
    {s : DbSession} {fresh : Uuid} {out : JobOutcome}
    (hrun : s.working.sourceRuns.get? run.id = some run)
    (h : runScan call region plan run (.start s fresh) = .ok out) : Ran s run plan out := by
  obtain ⟨s₁, status, count, error, hstatus, hscan, hsweep, herror⟩ := runScan_writes hrun h
  let done := SourceRuns.finished run status count error plan.script.finishedAt
  have hfinish : Wrote isJobWrite 0 s₁ (s₁.write (.sourceRun done)) := Wrote.single _ rfl
  refine ⟨?_, ?_, ⟨done, rfl, hstatus, ?_⟩, herror⟩
  · have hall := ((hscan.mono isJobWrite_of_isScanWrite).trans hfinish).trans
      (hsweep.mono isJobWrite_of_isScanWrite)
    rw [add_zero, add_zero] at hall
    exact hall
  · exact hsweep.frame.1.trans hscan.frame.1
  · exact hsweep.frame.2.trans (congrArg (fun t => t.put done) hscan.frame.2)

/-! ## One region -/

/-- A region is skipped when the breaker is open; else its jobs run, and what they saw is
correlated. -/
theorem collectRegion_cases {start : StartRun} {call : Call} {max : Int} {c c' : CollectState}
    {plan : RegionPlan} (h : collectRegion start call max c plan = .ok c') :
    (max ≤ c.consecutiveErrors ∧ c' = skipRegion plan.region max c) ∨
      (¬ max ≤ c.consecutiveErrors ∧ ∃ rs c₁,
        plan.jobs.foldlM (runJob start call plan.region) ⟨c, false, .empty⟩ = .ok rs ∧
        correlate call plan.correlatedAt rs = .ok c₁ ∧
        c' = { c₁ with
          consecutiveErrors := if rs.hadError then c₁.consecutiveErrors + 1 else 0 }) := by
  simp only [collectRegion] at h
  split at h
  · rename_i hopen
    cases h
    exact .inl ⟨hopen, rfl⟩
  · rename_i hclosed
    split at h
    · cases h
    · rename_i rs hrs
      split at h
      · cases h
      · rename_i c₁ hc₁
        cases h
        exact .inr ⟨hclosed, rs, c₁, hrs, hc₁, rfl⟩

/-! ## The call -/

/-- What a collection that returns has gone through. -/
theorem collectTargetWith_ok {start : StartRun} {target : TargetAccount} {options : Options}
    {world : World} {s : DbSession} {out : DbSession × CollectionResult}
    (h : collectTargetWith start target options world s = .ok out) :
    ∃ jobs s₀ account c, resolveJobs target = .ok jobs ∧ assumeRole target world = .ok () ∧
      Accounts.getOrCreate s target.awsAccountId target.name = .ok (s₀, account) ∧
      (planOf world jobs (regionsOf target)).foldlM
        (collectRegion start ⟨account.id, options.dryRun, options.force, options.jobId⟩
          options.maxConsecutiveRegionErrors)
        ⟨s₀, s₀.working.resources.next, 0, 0, 0, [], [], 0⟩ = .ok c ∧
      out = (conclude target options (regionsOf target).length c, resultOf target c) := by
  simp only [collectTargetWith] at h
  split at h
  · cases h
  · cases h
  · rename_i jobs hjobs hrole
    split at h
    · cases h
    · rename_i s₀ account haccount
      split at h
      · cases h
      · rename_i c hc
        cases h
        exact ⟨jobs, s₀, account, c, hjobs, hrole, haccount, hc, rfl⟩

/-- The writes at the end of a collection. -/
def isEnding : Write → Bool
  | .piiClassification _ | .auditEvent _ => true
  | _ => false

theorem recordPii_wrote (s : DbSession) (account field value : String) :
    Wrote isEnding 0 s (recordPii s account field value) := by
  simp only [recordPii]
  split
  · exact Wrote.refl _ _
  · exact Wrote.single s rfl

/-- A collection ends with a commit, unless it is dry. -/
theorem conclude_wrote (target : TargetAccount) (options : Options) (regions : Nat)
    (c : CollectState) :
    (options.dryRun = true ∧ conclude target options regions c = c.session) ∨
      (options.dryRun = false ∧ ∃ s, Wrote isEnding 0 c.session s ∧
        conclude target options regions c = s.commit) := by
  simp only [conclude]
  cases options.dryRun with
  | true => exact .inl ⟨rfl, rfl⟩
  | false =>
    have hpii := (recordPii_wrote c.session target.awsAccountId "aws_account_id"
      target.awsAccountId).trans
      (recordPii_wrote _ target.awsAccountId "arn" (target.roleArn.getD ""))
    exact .inr ⟨rfl, _, hpii.trans (Wrote.single _ (w := .auditEvent _) rfl), rfl⟩

end Collector

end Constat
