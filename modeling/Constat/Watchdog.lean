import Constat.Endpoints
import Constat.SourceRunHistory
import Mathlib.Data.Finset.Card

/-!
# Watchdog

Workers that die. A source run whose worker is gone stays `running`, and the unique index on running
runs then refuses every later scan of its scope. `/health` raises the alarm and
`cleanup_stuck_runs` frees the scope; the two share nothing but a cutoff on `started_at`.

* `health`         — the three checks of `routers/health.py`.
* `Blocked`        — no scan of the scope can start unless it is forced.
* `Young`          — no run that has started before the cutoff is running.
-/

namespace Constat

namespace Watchdog

open SourceRuns Trace
open Endpoints (internalServerError)
open Idempotency (HttpException)

/-! ## The health endpoint -/

/-- A query parameter in hours: the float as it is printed, and the `timedelta` it makes. -/
structure Hours where
  text : String
  span : Micros

inductive CheckStatus where
  | ok
  | stale
  | error
deriving DecidableEq

structure DbCheck where
  status : CheckStatus
  detail : Option String

structure FocusCheck where
  status : CheckStatus
  detail : Option String
  ingestedCount : Nat
  newestIngestedAt : Option String
  ageSeconds : Option Int
  threshold : Option Hours

structure StuckCheck where
  status : CheckStatus
  stuckCount : Nat
  threshold : Hours
  detail : Option String

structure HealthResponse where
  statusCode : Nat
  status : String
  checkedAt : String
  tenant : String
  db : DbCheck
  focusFreshness : FocusCheck
  stuckRuns : StuckCheck

/-- `session.execute(text("SELECT 1"))`, and what it raises. -/
def dbCheck : Option String → DbCheck
  | none => ⟨.ok, none⟩
  | some detail => ⟨.error, some detail⟩

/-- `ingested` has the `ingested_at` of every FOCUS charge. -/
def focusCheck (ingested : List Micros) (staleAfter : Hours) (now : Micros) : FocusCheck :=
  match ingested.max? with
  | none => ⟨.ok, some "no FOCUS data ingested yet", 0, none, none, none⟩
  | some newest =>
    ⟨if staleAfter.span < now - newest then .stale else .ok, none, ingested.length,
      some newest.isoformat, some ((now - newest).tdiv Micros.second), some staleAfter⟩

def stuckCheck (s : Store) (stuckRun : Hours) (now : Micros) : StuckCheck :=
  let stuckCount := (s.sourceRuns.rows.filter fun r =>
    r.status = .running ∧ r.startedAt < now - stuckRun.span).length
  if 0 < stuckCount then
    ⟨.error, stuckCount, stuckRun, some (toString stuckCount ++
      " source_run(s) in 'running' for > " ++ stuckRun.text ++
      "h. Call POST /collect/aws/cleanup-stuck-runs to free them.")⟩
  else ⟨.ok, 0, stuckRun, none⟩

/-- `queries` is what a query raises after the first one. -/
def health (s : Store) (ingested : List Micros) (probe : Option String) (queries : Option PyError)
    (staleAfter stuckRun : Hours) (now : Micros) : Except HttpException HealthResponse :=
  match queries with
  | some _ => .error internalServerError
  | none =>
    let db := dbCheck probe
    let focus := focusCheck ingested staleAfter now
    let stuck := stuckCheck s stuckRun now
    let ok := decide (db.status = .ok ∧ focus.status = .ok ∧ stuck.status = .ok)
    .ok ⟨if ok then 200 else 503, if ok then "ok" else "degraded", now.isoformat,
      defaultTenantId.text, db, focus, stuck⟩

/-! ## Scopes without a worker -/

/-- A scan of the scope does not start: the worker is told that one is in progress. -/
def Blocked (s : Store) (scope : Scope) : Prop :=
  ∀ jobId now contended, (startRun (.begin s) scope false jobId now contended).2 = none

theorem blocked_of_running {s : Store} {r : SourceRun} (hr : r ∈ s.sourceRuns)
    (hrun : r.status = .running) : Blocked s r.scope := by
  intro jobId now contended
  have hins : insertable s r.scope = false := by
    rw [Bool.eq_false_iff]
    intro h
    exact ((insertable_iff s r.scope).1 h).2 r hr rfl hrun
  simp [startRun, hins]

/-- A scope is free when its account is there and nothing in it is running. -/
theorem startRun_free {s : Store} {scope : Scope}
    (haccount : (s.accounts.get? scope.accountId).isSome)
    (hfree : ∀ r ∈ s.sourceRuns, r.scope = scope → r.status ≠ .running) (jobId : Option Uuid)
    (now : Micros) : (startRun (.begin s) scope false jobId now false).2.isSome := by
  have hins : insertable s scope = true := (insertable_iff s scope).2 ⟨haccount, hfree⟩
  simp [startRun, hins]

theorem stuckCount_eq (s : Store) (stuckRun : Hours) (now : Micros) :
    (stuckCheck s stuckRun now).stuckCount = (stuckRuns s stuckRun.span now).length := by
  simp only [stuckCheck]
  split
  · rfl
  · rename_i h
    exact (Nat.eq_zero_of_not_pos h).symm

theorem stuckCheck_ok (s : Store) (stuckRun : Hours) (now : Micros) :
    (stuckCheck s stuckRun now).status = .ok ↔ (stuckCheck s stuckRun now).stuckCount = 0 := by
  simp only [stuckCheck]
  split
  · rename_i h
    simp only [reduceCtorEq, false_iff]
    omega
  · simp

theorem mem_stuckRuns {s : Store} {threshold now : Micros} {r : SourceRun} :
    r ∈ stuckRuns s threshold now ↔
      r ∈ s.sourceRuns ∧ r.status = .running ∧ r.startedAt < now - threshold := by
  simp [stuckRuns, Table.mem_def]

/-- At most one run of a scope is running, so what is counted is scopes. -/
theorem stuckRuns_scopes {s : Store} (h : OneRunning s.sourceRuns) (threshold now : Micros) :
    ((stuckRuns s threshold now).map SourceRun.scope).Nodup := by
  refine List.Nodup.map_on ?_ (s.sourceRuns.nodup.of_map.filter _)
  intro r hr r' hr' hscope
  obtain ⟨hmem, hrun, _⟩ := mem_stuckRuns.1 hr
  obtain ⟨hmem', hrun', _⟩ := mem_stuckRuns.1 hr'
  exact h r hmem r' hmem' hrun hrun' hscope

/-- **The alarm counts the scopes that a dead worker blocks**: in every history of starts, finishes,
force-aborts and cleanups, `stuck_count` is how many scopes have been running since before the
cutoff, no scan starts in any of them unless it is forced, and the probe gets a 503 if there is
one. -/
theorem alarm_counts_blocked_scopes (s : Store) (ops : List Op) (ingested : List Micros)
    (probe : Option String) (staleAfter stuckRun : Hours) (now : Micros) :
    ∃ resp, health (exec step (.init s) ops).store ingested probe none staleAfter stuckRun now =
        .ok resp ∧
      ∃ scopes : Finset Scope, resp.stuckRuns.stuckCount = scopes.card ∧
        (∀ scope, scope ∈ scopes ↔ ∃ r ∈ (exec step (.init s) ops).runs,
          r.scope = scope ∧ r.status = .running ∧ r.startedAt < now - stuckRun.span) ∧
        (∀ scope ∈ scopes, Blocked (exec step (.init s) ops).store scope) ∧
        (scopes.Nonempty → resp.statusCode = 503) := by
  have hi : Inv (exec step (.init s) ops) := exec_inv inv_step (inv_init s) ops
  generalize exec step (.init s) ops = h at hi
  refine ⟨_, rfl, ((stuckRuns h.store stuckRun.span now).map SourceRun.scope).toFinset,
    ?_, ?_, ?_, ?_⟩
  · rw [List.toFinset_card_of_nodup (stuckRuns_scopes hi.oneRunning _ _), List.length_map]
    exact stuckCount_eq h.store stuckRun now
  · intro scope
    rw [List.mem_toFinset, List.mem_map]
    constructor
    · rintro ⟨r, hr, hscope⟩
      obtain ⟨hmem, hrun, hold⟩ := mem_stuckRuns.1 hr
      exact ⟨r, hmem, hscope, hrun, hold⟩
    · rintro ⟨r, hmem, hscope, hrun, hold⟩
      exact ⟨r, mem_stuckRuns.2 ⟨hmem, hrun, hold⟩, hscope⟩
  · intro scope hscope
    obtain ⟨r, hr, rfl⟩ := List.mem_map.1 (List.mem_toFinset.1 hscope)
    obtain ⟨hmem, hrun, _⟩ := mem_stuckRuns.1 hr
    exact blocked_of_running hmem hrun
  · rintro ⟨scope, hscope⟩
    obtain ⟨r, hr, _⟩ := List.mem_map.1 (List.mem_toFinset.1 hscope)
    have hstuck : (stuckCheck h.store stuckRun now).status ≠ .ok := by
      rw [Ne, stuckCheck_ok, stuckCount_eq]
      exact (List.length_pos_of_mem hr).ne'
    simp [hstuck]

/-! ## After a cleanup -/

/-- Nothing is running that has started before the cutoff. -/
def Young (cutoff : Micros) (t : Table SourceRun.id) : Prop :=
  ∀ r ∈ t, r.status = .running → cutoff ≤ r.startedAt

def Op.now : Op → Micros
  | .startRun _ _ _ now => now
  | .finishRun _ _ _ _ now => now
  | .abortActiveRun _ now => now
  | .cleanupStuckRuns _ now => now

theorem young_moved {cutoff : Micros} {t t' : Table SourceRun.id} (hm : Moved t t')
    (h : Young cutoff t) : Young cutoff t' := fun r hr hrun => h r (hm.running hr hrun) hrun

/-- The rows of a start: those that were there, some of them ended, and the new run. -/
theorem young_startRun {cutoff : Micros} {s : Store} (hy : Young cutoff s.sourceRuns)
    (scope : Scope) (force : Bool) (jobId : Option Uuid) {now : Micros} (hnow : cutoff ≤ now) :
    Young cutoff (startRun (.begin s) scope force jobId now false).1.commit.close.sourceRuns := by
  let s₁ : DbSession := if force then abortActiveRun (.begin s) scope now else .begin s
  have hs₁ : Young cutoff s₁.working.sourceRuns := by
    cases force with
    | true => exact young_moved (abortActiveRun_moved (.begin s) scope now) hy
    | false => exact hy
  have hbase : s₁.committed = s := by
    cases force with
    | true => exact Session.writes_committed _ _
    | false => rfl
  cases hins : insertable s₁.working scope with
  | true =>
    have hstart : (startRun (.begin s) scope force jobId now false).1 =
        s₁.write (.sourceRun (newRun s₁.working scope jobId now)) := by
      simp only [startRun]
      rw [show (if force then abortActiveRun (Session.begin s) scope now else Session.begin s) = s₁
        from rfl, hins]
      rfl
    rw [hstart]
    intro r hr hrun
    rcases Table.mem_put.1 hr with rfl | ⟨hr, _⟩
    · exact hnow
    · exact hs₁ r hr hrun
  | false =>
    have hstart : (startRun (.begin s) scope force jobId now false).1 = s₁.rollback := by
      simp only [startRun]
      rw [show (if force then abortActiveRun (Session.begin s) scope now else Session.begin s) = s₁
        from rfl, hins]
      rfl
    rw [hstart]
    show Young cutoff s₁.committed.sourceRuns
    rw [hbase]
    exact hy

/-- A run is young when it starts, and nothing is set back to running. -/
theorem young_step {cutoff : Micros} {h : History} (hi : Inv h) (hy : Young cutoff h.runs) {op : Op}
    (hnow : cutoff ≤ Op.now op) : Young cutoff (step h op).runs := by
  cases op with
  | startRun scope force jobId now => exact young_startRun hy scope force jobId hnow
  | abortActiveRun scope now =>
    exact young_moved (abortActiveRun_moved (.begin h.store) scope now) hy
  | cleanupStuckRuns threshold now =>
    exact young_moved (cleanupStuckRuns_moved (.begin h.store) threshold now) hy
  | finishRun run scanCompleted regionError resourcesFound now =>
    by_cases hopen : run ∈ h.openRuns
    · obtain ⟨r, hr, rfl⟩ := hi.openRows run hopen
      have hget : (Session.begin h.store : DbSession).working.sourceRuns.get? r.id = some r :=
        Table.get?_eq_some.2 ⟨hr, rfl⟩
      simp only [step, if_pos hopen, finishRun_eq hget]
      intro x hx hrun
      rcases Table.mem_put.1 hx with rfl | ⟨hx, _⟩
      · exact absurd hrun (jobStatus_ne_running scanCompleted regionError)
      · exact hy x hx hrun
    · simp only [step, if_neg hopen]
      exact hy

theorem cleanup_runs (h : History) (threshold now : Micros) :
    (step h (.cleanupStuckRuns threshold now)).runs =
      h.runs.putAll ((stuckRuns h.store threshold now).map (cleaned now)) :=
  congrArg (·.sourceRuns) (cleanupStuckRuns_working (.begin h.store) threshold now)

/-- A cleanup leaves nothing running from before its cutoff. -/
theorem young_cleanup (h : History) (threshold now : Micros) :
    Young (now - threshold) (step h (.cleanupStuckRuns threshold now)).runs := by
  intro r hr hrun
  have hnodup : (((stuckRuns h.store threshold now).map (cleaned now)).map SourceRun.id).Nodup := by
    rw [List.map_map]
    exact h.store.sourceRuns.nodup_filter _
  rw [cleanup_runs] at hr
  rcases (Table.mem_putAll hnodup).1 hr with hcleaned | ⟨hmem, hother⟩
  · obtain ⟨r₀, _, rfl⟩ := List.mem_map.1 hcleaned
    cases hrun
  · by_contra hold
    have hstuck : r ∈ stuckRuns h.store threshold now := 
      mem_stuckRuns.2 ⟨hmem, hrun, lt_of_not_ge hold⟩
    exact hother (cleaned now r) (List.mem_map_of_mem hstuck) rfl

/-- A run that is young is left alone. -/
theorem mem_cleanup {h : History} {threshold now : Micros} {r : SourceRun} (hr : r ∈ h.runs)
    (hyoung : ¬ r.startedAt < now - threshold) :
    r ∈ (step h (.cleanupStuckRuns threshold now)).runs := by
  have hnodup : (((stuckRuns h.store threshold now).map (cleaned now)).map SourceRun.id).Nodup := by
    rw [List.map_map]
    exact h.store.sourceRuns.nodup_filter _
  rw [cleanup_runs]
  refine (Table.mem_putAll hnodup).2 (.inr ⟨hr, fun x hx hid => ?_⟩)
  obtain ⟨r₀, hr₀, rfl⟩ := List.mem_map.1 hx
  obtain ⟨hmem₀, _, hold⟩ := mem_stuckRuns.1 hr₀
  obtain rfl : r₀ = r := Table.eq_of_key (t := h.store.sourceRuns) hmem₀ hr hid.symm
  exact hyoung hold

/-- After a cleanup a scope can be scanned again exactly when its run, if one was running, had
started before the cutoff. -/
theorem cleanup_frees {h : History} {threshold now : Micros} {scope : Scope}
    (haccount : ((step h (.cleanupStuckRuns threshold now)).store.accounts.get?
      scope.accountId).isSome) (jobId : Option Uuid) (later : Micros) :
    (startRun (.begin (step h (.cleanupStuckRuns threshold now)).store) scope false jobId later
        false).2.isSome ↔
      ∀ r ∈ h.runs, r.scope = scope → r.status = .running → r.startedAt < now - threshold := by
  constructor
  · intro hsome r hr hscope hrun
    by_contra hyoung
    have hblocked := blocked_of_running (mem_cleanup hr hyoung) hrun jobId later false
    rw [hscope] at hblocked
    rw [hblocked] at hsome
    cases hsome
  · intro hall
    refine startRun_free haccount (fun r hr hscope hrun => ?_) jobId later
    have hmoved := cleanupStuckRuns_moved (.begin h.store) threshold now
    have hold := hall r (hmoved.running hr hrun) hscope hrun
    exact absurd hold (not_lt.2 (young_cleanup h threshold now r hr hrun))

theorem young_exec {cutoff : Micros} {ops : List Op} {h : History} (hi : Inv h)
    (hy : Young cutoff h.runs) (hclock : ∀ op ∈ ops, cutoff ≤ Op.now op) :
    Young cutoff (exec step h ops).runs := by
  induction ops generalizing h with
  | nil => exact hy
  | cons op ops ih =>
    exact ih (inv_step h op hi) (young_step hi hy (hclock op List.mem_cons_self))
      fun op' hop' => hclock op' (List.mem_cons_of_mem _ hop')

/-- The history after these operations and a cleanup. -/
def cleanedUp (s : Store) (ops : List Op) (threshold at_ : Micros) : History :=
  step (exec step (.init s) ops) (.cleanupStuckRuns threshold at_)

/-- **A cleanup frees the scopes of dead workers and quiets the alarm**: after any history, a
cleanup lets a scan start in a scope exactly when no run younger than its cutoff is running there,
and whatever happens from then on, the probe reports no stuck run until its own cutoff has passed
the one of the cleanup. -/
theorem cleanup_quiets (s : Store) (ops ops' : List Op) (threshold at_ : Micros)
    (hclock : ∀ op ∈ ops', at_ - threshold ≤ Op.now op) (stuckRun : Hours) (now : Micros)
    (hnow : now - stuckRun.span ≤ at_ - threshold) :
    (∀ scope jobId later,
      ((cleanedUp s ops threshold at_).store.accounts.get? scope.accountId).isSome →
        ((startRun (.begin (cleanedUp s ops threshold at_).store) scope false jobId later
            false).2.isSome ↔
          ∀ r ∈ (exec step (.init s) ops).runs, r.scope = scope → r.status = .running →
            r.startedAt < at_ - threshold)) ∧
      (stuckCheck (exec step (cleanedUp s ops threshold at_) ops').store stuckRun now).status =
        .ok := by
  have hi : Inv (exec step (.init s) ops) := exec_inv inv_step (inv_init s) ops
  simp only [cleanedUp]
  generalize exec step (.init s) ops = h at hi
  refine ⟨fun scope jobId later haccount => cleanup_frees haccount jobId later, ?_⟩
  have hyoung := young_exec (inv_step h (.cleanupStuckRuns threshold at_) hi)
    (young_cleanup h threshold at_) hclock
  rw [stuckCheck_ok, stuckCount_eq, List.length_eq_zero_iff, List.eq_nil_iff_forall_not_mem]
  intro r hr
  obtain ⟨hmem, hrun, hold⟩ := mem_stuckRuns.1 hr
  exact absurd (hyoung r hmem hrun) (not_le.2 (hold.trans_le hnow))

def hour : Micros := 3600 * Micros.second

/-- A worker dies in the scan of a scope, and is cleaned up after three hours. -/
def deadWorker : History :=
  cleanedUp lateStore [.startRun lateScope false none 0] defaultStuckRunThreshold (3 * hour)

/-- Another scan takes the scope, and an hour later the probe is still quiet. -/
theorem dead_worker_quiet :
    (startRun (.begin deadWorker.store) lateScope false none (3 * hour) false).2.isSome ∧
      (stuckCheck (exec step deadWorker [.startRun lateScope false none (3 * hour)]).store
        ⟨"3.0", 3 * hour⟩ (4 * hour)).status = .ok := by
  have hrun := cleanup_quiets lateStore [.startRun lateScope false none 0]
    [.startRun lateScope false none (3 * hour)] defaultStuckRunThreshold (3 * hour) (by decide)
    ⟨"3.0", 3 * hour⟩ (4 * hour) (by decide)
  refine ⟨(hrun.1 lateScope none (3 * hour) (by decide +kernel)).2 ?_, hrun.2⟩
  decide +kernel

end Watchdog

end Constat
