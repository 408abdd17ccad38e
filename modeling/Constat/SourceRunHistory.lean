import Constat.Lib.Trace
import Constat.SourceRuns

/-!
# SourceRunHistory

The status of source runs over whole histories. Any number of workers start runs, finish the runs
they started, force-abort the active run of a scope and clean up stuck runs, in any order, each in
a session of its own that is committed.

`Moved` says what a step can do to the rows that are there: `abortActiveRun` and
`cleanupStuckRuns` only touch running rows, which become failed (`abortActiveRun_moved`,
`cleanupStuckRuns_moved`). `finishRun` writes its status over whatever the row holds, so a worker
that finishes a run which was aborted meanwhile turns a failed run into a successful one
(`late_finish_revives`).

* `Inv`         — what every history keeps: at most one running run per scope, a running run
                  carries no error, a worker's open run is running or failed (`inv_step`).
* `StateMachine` — what a history of source runs should satisfy.
* `stateMachine_iff` — a history satisfies it exactly when no worker finishes a run successfully
                  after another actor has ended that run.
-/

namespace Constat

namespace SourceRuns

open Trace

/-! ## The effect of the writers on the table of runs -/

/-- What an actor other than a run's own worker can do to the rows: nothing, or end a running
one as failed. -/
structure Moved (t t' : Table SourceRun.id) : Prop where
  kept : ∀ r ∈ t, ∃ r' ∈ t', r'.id = r.id ∧
    (r' = r ∨ (r.status = .running ∧ r'.status = .failed))
  came : ∀ r' ∈ t', ∃ r ∈ t, r.id = r'.id ∧ r.scope = r'.scope ∧
    (r' = r ∨ (r.status = .running ∧ r'.status = .failed))

theorem Moved.refl (t : Table SourceRun.id) : Moved t t where
  kept r hr := ⟨r, hr, rfl, .inl rfl⟩
  came r hr := ⟨r, hr, rfl, rfl, .inl rfl⟩

/-- Ending rows that a filter selects among the running ones. -/
theorem moved_putAll {t : Table SourceRun.id} {p : SourceRun → Bool} {f : SourceRun → SourceRun}
    (hp : ∀ r, p r = true → r.status = .running)
    (hf : ∀ r, (f r).id = r.id ∧ (f r).scope = r.scope ∧ (f r).status = .failed) :
    Moved t (t.putAll ((t.rows.filter p).map f)) := by
  have hids : ((t.rows.filter p).map f).map SourceRun.id = (t.rows.filter p).map SourceRun.id := by
    rw [List.map_map]
    exact List.map_congr_left fun r _ => (hf r).1
  have hnd : (((t.rows.filter p).map f).map SourceRun.id).Nodup := by
    rw [hids]; exact t.nodup_filter p
  constructor
  · intro r hr
    cases hpr : p r with
    | true =>
      have hm : f r ∈ (t.rows.filter p).map f :=
        List.mem_map.2 ⟨r, List.mem_filter.2 ⟨hr, hpr⟩, rfl⟩
      exact ⟨f r, (Table.mem_putAll hnd).2 (.inl hm), (hf r).1, .inr ⟨hp r hpr, (hf r).2.2⟩⟩
    | false =>
      refine ⟨r, (Table.mem_putAll hnd).2 (.inr ⟨hr, ?_⟩), rfl, .inl rfl⟩
      intro x hx he
      obtain ⟨y, hy, rfl⟩ := List.mem_map.1 hx
      have hym := List.mem_filter.1 hy
      have : y = r := Table.eq_of_key (t := t) hym.1 hr ((hf y).1.symm.trans he.symm)
      rw [this, hpr] at hym
      exact Bool.noConfusion hym.2
  · intro r' hr'
    rcases (Table.mem_putAll hnd).1 hr' with h | ⟨h, _⟩
    · obtain ⟨r, hr, rfl⟩ := List.mem_map.1 h
      have hrm := List.mem_filter.1 hr
      exact ⟨r, hrm.1, (hf r).1.symm, (hf r).2.1.symm, .inr ⟨hp r hrm.2, (hf r).2.2⟩⟩
    · exact ⟨r', h, rfl, rfl, .inl rfl⟩

theorem abortActiveRun_moved (s : DbSession) (scope : Scope) (now : Micros) :
    Moved s.working.sourceRuns (abortActiveRun s scope now).working.sourceRuns := by
  rw [abortActiveRun_working]
  refine moved_putAll ?_ fun r => ⟨rfl, rfl, rfl⟩
  intro r hr
  exact (of_decide_eq_true hr).2

theorem cleanupStuckRuns_working (s : DbSession) (threshold now : Micros) :
    (cleanupStuckRuns s threshold now).1.working =
      { s.working with sourceRuns :=
          s.working.sourceRuns.putAll ((stuckRuns s.working threshold now).map (cleaned now)) } := by
  rw [← foldl_applyWrite_sourceRun, List.map_map]
  simp only [cleanupStuckRuns]
  split
  · exact Session.writes_working _ _
  · exact Session.writes_working _ _

theorem cleanupStuckRuns_moved (s : DbSession) (threshold now : Micros) :
    Moved s.working.sourceRuns (cleanupStuckRuns s threshold now).1.working.sourceRuns := by
  rw [cleanupStuckRuns_working]
  refine moved_putAll ?_ fun r => ⟨rfl, rfl, rfl⟩
  intro r hr
  exact (of_decide_eq_true hr).1

/-! ## Histories -/

/-- The database and the runs whose worker has not finished them yet. -/
structure History where
  store : Store
  openRuns : List Uuid

namespace History

def runs (h : History) : Table SourceRun.id := h.store.sourceRuns

/-- No run has been started. -/
def init (s : Store) : History where
  store := { s with sourceRuns := .empty }
  openRuns := []

end History

inductive Op where
  | startRun (scope : Scope) (force : Bool) (jobId : Option Uuid) (now : Micros)
  | finishRun (run : Uuid) (scanCompleted : Bool) (regionError : Option String)
      (resourcesFound : Nat) (now : Micros)
  | abortActiveRun (scope : Scope) (now : Micros)
  | cleanupStuckRuns (threshold now : Micros)

/-- One operation, in a session that is committed. A worker finishes a run it started, once. -/
def step (h : History) : Op → History
  | .startRun scope force jobId now =>
    let (s, run) := SourceRuns.startRun (Session.begin h.store) scope force jobId now false
    { store := s.commit.close, openRuns := (run.map (·.id)).toList ++ h.openRuns }
  | .finishRun run scanCompleted regionError resourcesFound now =>
    if run ∈ h.openRuns then
      let s := SourceRuns.finishRun (Session.begin h.store) run
        (jobStatus scanCompleted regionError) (some resourcesFound) regionError now
      { store := s.commit.close, openRuns := h.openRuns.filter (· ≠ run) }
    else h
  | .abortActiveRun scope now =>
    let s := SourceRuns.abortActiveRun (Session.begin h.store) scope now
    { h with store := s.commit.close }
  | .cleanupStuckRuns threshold now =>
    let s := (SourceRuns.cleanupStuckRuns (Session.begin h.store) threshold now).1
    { h with store := s.commit.close }

/-- What one step can do to the rows and to the open runs. -/
inductive StepCase (h h' : History) : Op → Prop where
  | idle {op : Op} : h' = h → StepCase h h' op
  | moved {op : Op} : Moved h.runs h'.runs → h'.openRuns = h.openRuns → StepCase h h' op
  | started {op : Op} (t : Table SourceRun.id) (run : SourceRun) :
      Moved h.runs t → h'.runs = t.put run → run.id = t.next → run.status = .running →
      run.error = none → (∀ r ∈ t, r.scope = run.scope → r.status ≠ .running) →
      h'.openRuns = run.id :: h.openRuns → StepCase h h' op
  | finished (r : SourceRun) (scanCompleted : Bool) (regionError : Option String)
      (resourcesFound : Nat) (now : Micros) : r ∈ h.runs → r.id ∈ h.openRuns →
      h'.runs = h.runs.put (finished r (jobStatus scanCompleted regionError)
        (some resourcesFound) regionError now) →
      h'.openRuns = h.openRuns.filter (· ≠ r.id) →
      StepCase h h' (.finishRun r.id scanCompleted regionError resourcesFound now)

theorem step_cases {h : History} (hopen : ∀ i ∈ h.openRuns, ∃ r ∈ h.runs, r.id = i) (op : Op) :
    StepCase h (step h op) op := by
  cases op with
  | startRun scope force jobId now =>
    let s₁ : DbSession :=
      if force then SourceRuns.abortActiveRun (Session.begin h.store) scope now
      else Session.begin h.store
    have hmoved : Moved h.runs s₁.working.sourceRuns := by
      cases force with
      | true => exact abortActiveRun_moved (Session.begin h.store) scope now
      | false => exact Moved.refl _
    have hbase : s₁.committed = h.store := by
      cases force with
      | true => exact Session.writes_committed _ _
      | false => rfl
    cases hins : insertable s₁.working scope with
    | true =>
      have hstep : step h (.startRun scope force jobId now) =
          { store := applyWrite s₁.working (.sourceRun (newRun s₁.working scope jobId now))
            openRuns := (newRun s₁.working scope jobId now).id :: h.openRuns } := by
        simp only [step, SourceRuns.startRun]
        rw [show (if force then SourceRuns.abortActiveRun (Session.begin h.store) scope now
          else Session.begin h.store) = s₁ from rfl, hins]
        rfl
      rw [hstep]
      refine .started s₁.working.sourceRuns (newRun s₁.working scope jobId now) hmoved
        rfl rfl rfl rfl ?_ rfl
      exact ((insertable_iff _ _).1 hins).2
    | false =>
      have hstep : step h (.startRun scope force jobId now) = h := by
        simp only [step, SourceRuns.startRun]
        rw [show (if force then SourceRuns.abortActiveRun (Session.begin h.store) scope now
          else Session.begin h.store) = s₁ from rfl, hins]
        change History.mk s₁.committed h.openRuns = h
        rw [hbase]
      exact .idle hstep
  | finishRun run scanCompleted regionError resourcesFound now =>
    by_cases hrun : run ∈ h.openRuns
    · obtain ⟨r, hr, rfl⟩ := hopen run hrun
      have hget : h.store.sourceRuns.get? r.id = some r := Table.get?_eq_some.2 ⟨hr, rfl⟩
      have hstep : step h (.finishRun r.id scanCompleted regionError resourcesFound now) =
          { store := applyWrite h.store (.sourceRun (SourceRuns.finished r
              (jobStatus scanCompleted regionError) (some resourcesFound) regionError now))
            openRuns := h.openRuns.filter (· ≠ r.id) } := by
        simp only [step, SourceRuns.finishRun, if_pos hrun, Session.begin_working, hget]
        rfl
      rw [hstep]
      exact .finished r scanCompleted regionError resourcesFound now hr hrun rfl rfl
    · refine .idle ?_
      simp only [step, if_neg hrun]
  | abortActiveRun scope now =>
    exact .moved (abortActiveRun_moved (Session.begin h.store) scope now) rfl
  | cleanupStuckRuns threshold now =>
    exact .moved (cleanupStuckRuns_moved (Session.begin h.store) threshold now) rfl

/-! ## What every history keeps -/

def OneRunning (t : Table SourceRun.id) : Prop :=
  ∀ r ∈ t, ∀ r' ∈ t, r.status = .running → r'.status = .running → r.scope = r'.scope → r = r'

structure Inv (h : History) : Prop where
  oneRunning : OneRunning h.runs
  runningClean : ∀ r ∈ h.runs, r.status = .running → r.error = none
  openRuns : ∀ i ∈ h.openRuns, ∃ r ∈ h.runs, r.id = i ∧ (r.status = .running ∨ r.status = .failed)

theorem Inv.openRows {h : History} (hi : Inv h) : ∀ i ∈ h.openRuns, ∃ r ∈ h.runs, r.id = i := by
  intro i hmem
  obtain ⟨r, hr, he, _⟩ := hi.openRuns i hmem
  exact ⟨r, hr, he⟩

theorem inv_init (s : Store) : Inv (.init s) where
  oneRunning r hr := absurd hr (Table.not_mem_empty r)
  runningClean r hr := absurd hr (Table.not_mem_empty r)
  openRuns i hmem := by cases hmem

/-- A running row of the new table was there, unchanged. -/
theorem Moved.running {t t' : Table SourceRun.id} (hm : Moved t t') {r : SourceRun} (hr : r ∈ t')
    (hrun : r.status = .running) : r ∈ t := by
  obtain ⟨r₀, hr₀, _, _, he⟩ := hm.came r hr
  rcases he with rfl | ⟨_, hf⟩
  · exact hr₀
  · rw [hrun] at hf; cases hf

theorem Moved.oneRunning {t t' : Table SourceRun.id} (hm : Moved t t') (h : OneRunning t) :
    OneRunning t' := by
  intro r hr r' hr' hrun hrun' hs
  exact h r (hm.running hr hrun) r' (hm.running hr' hrun') hrun hrun' hs

theorem Moved.openRuns {t t' : Table SourceRun.id} (hm : Moved t t') {i : Uuid}
    (h : ∃ r ∈ t, r.id = i ∧ (r.status = .running ∨ r.status = .failed)) :
    ∃ r ∈ t', r.id = i ∧ (r.status = .running ∨ r.status = .failed) := by
  obtain ⟨r, hr, rfl, hst⟩ := h
  obtain ⟨r', hr', hid, he⟩ := hm.kept r hr
  rcases he with rfl | ⟨_, hf⟩
  · exact ⟨r', hr', rfl, hst⟩
  · exact ⟨r', hr', hid, .inr hf⟩

/-- Every step keeps the invariant, late finishes included. -/
theorem inv_step (h : History) (op : Op) (hi : Inv h) : Inv (step h op) := by
  cases step_cases hi.openRows op with
  | idle he => rw [he]; exact hi
  | moved hm ho =>
    refine ⟨hm.oneRunning hi.oneRunning, ?_, ?_⟩
    · intro r hr hrun
      exact hi.runningClean r (hm.running hr hrun) hrun
    · intro i hmem
      rw [ho] at hmem
      exact hm.openRuns (hi.openRuns i hmem)
  | started t run hm ht hid hst herr hfree ho =>
    have hmem : ∀ {z : SourceRun}, z ∈ (step h op).runs ↔ z = run ∨ z ∈ t := by
      intro z; rw [ht]; exact Table.mem_put_next hid
    refine ⟨?_, ?_, ?_⟩
    · intro r hr r' hr' hrun hrun' hs
      rcases hmem.1 hr with rfl | hrt <;> rcases hmem.1 hr' with rfl | hrt'
      · rfl
      · exact absurd hrun' (hfree r' hrt' hs.symm)
      · exact absurd hrun (hfree r hrt hs)
      · exact hm.oneRunning hi.oneRunning r hrt r' hrt' hrun hrun' hs
    · intro r hr hrun
      rcases hmem.1 hr with rfl | hrt
      · exact herr
      · exact hi.runningClean r (hm.running hrt hrun) hrun
    · intro i hio
      rw [ho, List.mem_cons] at hio
      rcases hio with rfl | hio
      · exact ⟨run, hmem.2 (.inl rfl), rfl, .inl hst⟩
      · obtain ⟨r, hr, hri, hrs⟩ := hm.openRuns (hi.openRuns i hio)
        exact ⟨r, hmem.2 (.inr hr), hri, hrs⟩
  | finished r sc re found now hr hopen ht ho =>
    have hne := jobStatus_ne_running sc re
    have hmem : ∀ {z : SourceRun}, z ∈ (step h (.finishRun r.id sc re found now)).runs →
        z.status = .running → z ∈ h.runs := by
      intro z hz hrun
      rw [ht] at hz
      rcases Table.mem_put.1 hz with rfl | ⟨hz, _⟩
      · exact absurd hrun hne
      · exact hz
    refine ⟨?_, ?_, ?_⟩
    · intro z hz z' hz' hrun hrun' hs
      exact hi.oneRunning z (hmem hz hrun) z' (hmem hz' hrun') hrun hrun' hs
    · intro z hz hrun
      exact hi.runningClean z (hmem hz hrun) hrun
    · intro i hio
      rw [ho, List.mem_filter, decide_eq_true_eq] at hio
      obtain ⟨z, hz, hzi, hzs⟩ := hi.openRuns i hio.1
      refine ⟨z, ?_, hzi, hzs⟩
      rw [ht]
      exact Table.mem_put.2 (.inr ⟨hz, fun he => hio.2 (hzi.symm.trans he)⟩)

/-! ## When the state machine holds -/

/-- A run in a terminal status keeps it. -/
def KeepsTerminal (t t' : Table SourceRun.id) : Prop :=
  ∀ r ∈ t, r.status ≠ .running → ∃ r' ∈ t', r'.id = r.id ∧ r'.status = r.status

theorem KeepsTerminal.refl (t : Table SourceRun.id) : KeepsTerminal t t :=
  fun r hr _ => ⟨r, hr, rfl, rfl⟩

theorem KeepsTerminal.trans {t t' t'' : Table SourceRun.id} (h₁ : KeepsTerminal t t')
    (h₂ : KeepsTerminal t' t'') : KeepsTerminal t t'' := by
  intro r hr hst
  obtain ⟨r', hr', hid, hst'⟩ := h₁ r hr hst
  obtain ⟨r'', hr'', hid', hst''⟩ := h₂ r' hr' (by rw [hst']; exact hst)
  exact ⟨r'', hr'', hid'.trans hid, hst''.trans hst'⟩

theorem Moved.keepsTerminal {t t' : Table SourceRun.id} (hm : Moved t t') :
    KeepsTerminal t t' := by
  intro r hr hst
  obtain ⟨r', hr', hid, he⟩ := hm.kept r hr
  rcases he with rfl | ⟨hrun, _⟩
  · exact ⟨r', hr', rfl, rfl⟩
  · exact absurd hrun hst

def SuccessClean (t : Table SourceRun.id) : Prop :=
  ∀ r ∈ t, r.status = .success → r.error = none

/-- The run a worker is about to finish successfully is still running. -/
def NoLateSuccess (h : History) : Op → Prop
  | .finishRun run scanCompleted regionError _ _ =>
    run ∈ h.openRuns → jobStatus scanCompleted regionError = .success →
      ∀ r ∈ h.runs, r.id = run → r.status = .running
  | _ => True

theorem jobStatus_success {scanCompleted : Bool} {regionError : Option String}
    (h : jobStatus scanCompleted regionError = .success) : regionError = none := by
  simp only [jobStatus] at h
  split at h
  · rename_i hc
    rw [Bool.and_eq_true, Option.isNone_iff_eq_none] at hc
    exact hc.2
  · cases h

theorem step_keepsTerminal {h : History} {op : Op} (hi : Inv h) (hn : NoLateSuccess h op) :
    KeepsTerminal h.runs (step h op).runs := by
  cases step_cases hi.openRows op with
  | idle he => rw [he]; exact .refl _
  | moved hm _ => exact hm.keepsTerminal
  | started t run hm ht hid _ _ _ _ =>
    refine hm.keepsTerminal.trans ?_
    intro r hr _
    rw [ht]
    exact ⟨r, (Table.mem_put_next hid).2 (.inr hr), rfl, rfl⟩
  | finished r sc re found now hr hopen ht _ =>
    intro z hz hst
    rw [ht]
    by_cases he : z.id = r.id
    · have hzr : z = r := Table.eq_of_key hz hr he
      subst hzr
      refine ⟨_, Table.mem_put_self _ _, rfl, ?_⟩
      obtain ⟨z', hz', hid', hst'⟩ := hi.openRuns z.id hopen
      have hzz : z' = z := Table.eq_of_key hz' hz hid'
      subst hzz
      -- an open run that is not running was ended as failed by another actor
      have hfailed : z'.status = .failed := hst'.resolve_left hst
      rw [hfailed]
      have hns : jobStatus sc re ≠ .success := by
        intro hs
        exact hst (hn hopen hs z' hz rfl)
      simp only [jobStatus] at hns
      simp only [finished, jobStatus]
      split at hns
      · exact absurd rfl hns
      · rename_i hc
        rw [if_neg hc]
    · exact ⟨z, Table.mem_put.2 (.inr ⟨hz, he⟩), rfl, rfl⟩

theorem step_successClean {h : History} {op : Op} (hi : Inv h) (hc : SuccessClean h.runs)
    (hn : NoLateSuccess h op) : SuccessClean (step h op).runs := by
  cases step_cases hi.openRows op with
  | idle he => rw [he]; exact hc
  | moved hm _ =>
    intro r hr hs
    obtain ⟨r₀, hr₀, _, _, he⟩ := hm.came r hr
    rcases he with rfl | ⟨_, hf⟩
    · exact hc r hr₀ hs
    · rw [hs] at hf; cases hf
  | started t run hm ht hid _ herr _ _ =>
    intro r hr hs
    rw [ht] at hr
    rcases (Table.mem_put_next hid).1 hr with rfl | hrt
    · exact herr
    · obtain ⟨r₀, hr₀, _, _, he⟩ := hm.came r hrt
      rcases he with rfl | ⟨_, hf⟩
      · exact hc r hr₀ hs
      · rw [hs] at hf; cases hf
  | finished r sc re found now hr hopen ht _ =>
    intro z hz hs
    rw [ht] at hz
    rcases Table.mem_put.1 hz with rfl | ⟨hz, _⟩
    · have hre : re = none := jobStatus_success hs
      have hrun := hn hopen hs r hr rfl
      simp only [finished, hre, hi.runningClean r hr hrun]
      rfl
    · exact hc z hz hs

/-- A successful finish of a run that is not running breaks the state machine in that step. -/
theorem noLateSuccess_of_keepsTerminal {h : History} {op : Op} (hi : Inv h)
    (hk : KeepsTerminal h.runs (step h op).runs) : NoLateSuccess h op := by
  cases op with
  | startRun scope force jobId now => exact trivial
  | abortActiveRun scope now => exact trivial
  | cleanupStuckRuns threshold now => exact trivial
  | finishRun run sc re found now =>
    intro hopen hs r hr he
    obtain ⟨r', hr', hid', hst'⟩ := hi.openRuns run hopen
    have hrr : r' = r := Table.eq_of_key hr' hr (hid'.trans he.symm)
    subst hrr
    rcases hst' with hrun | hfailed
    · exact hrun
    · have hget : h.store.sourceRuns.get? run = some r' := Table.get?_eq_some.2 ⟨hr, he⟩
      have hruns : (step h (.finishRun run sc re found now)).runs =
          h.runs.put (finished r' (jobStatus sc re) (some found) re now) := by
        simp only [step, SourceRuns.finishRun, if_pos hopen, Session.begin_working, hget]
        rfl
      obtain ⟨z, hz, hzid, hzst⟩ := hk r' hr (by rw [hfailed]; decide)
      rw [hruns] at hz
      rcases Table.mem_put.1 hz with rfl | ⟨_, hne⟩
      · rw [hfailed, show (finished r' (jobStatus sc re) (some found) re now).status =
          jobStatus sc re from rfl, hs] at hzst
        cases hzst
      · exact absurd hzid hne

/-! ## The state machine over whole histories -/

/-- What a history of source runs should satisfy: at most one run per scope is running, a
terminal status never changes (so a run that did not succeed never proves a scope and never
counts for retirement), and a successful run carries no error. -/
structure StateMachine (h : History) (ops : List Op) : Prop where
  oneRunning : Always step (fun h => OneRunning h.runs) h ops
  terminal : ∀ pre mid suf, ops = pre ++ mid ++ suf →
    KeepsTerminal (exec step h pre).runs (exec step h (pre ++ mid)).runs
  neverProves : ∀ pre mid suf, ops = pre ++ mid ++ suf → ∀ r ∈ (exec step h pre).runs,
    r.status ≠ .running → r.status ≠ .success → ∀ scope,
      (∀ maxAge now run, latestSuccessfulRun (exec step h (pre ++ mid)).store scope maxAge now =
        some run → run.id ≠ r.id) ∧
      (∀ limit, ∀ run ∈ recentSuccessfulRuns (exec step h (pre ++ mid)).store scope limit,
        run.id ≠ r.id)
  successClean : Always step (fun h => SuccessClean h.runs) h ops

/-- A run that ended without success and keeps its status is no successful run of any scope. -/
theorem not_successful_of_keepsTerminal {t : Table SourceRun.id} {s : Store}
    (hk : KeepsTerminal t s.sourceRuns) {r : SourceRun} (hr : r ∈ t) (hst : r.status ≠ .running)
    (hns : r.status ≠ .success) {scope : Scope} {run : SourceRun}
    (hrun : run ∈ successfulRuns s scope) : run.id ≠ r.id := by
  intro he
  obtain ⟨r', hr', hid', hst'⟩ := hk r hr hst
  have hm := List.mem_filter.1 hrun
  have hrr : run = r' := Table.eq_of_key (t := s.sourceRuns) hm.1 hr' (he.trans hid'.symm)
  have hsuc : run.status = .success := (of_decide_eq_true hm.2).2
  rw [hrr, hst'] at hsuc
  exact hns hsuc

/-- Along a history without late successes, terminal statuses are kept between any two points. -/
theorem exec_keepsTerminal {h : History} {ops : List Op} (hi : Inv h)
    (hn : Along step NoLateSuccess h ops) : KeepsTerminal h.runs (exec step h ops).runs :=
  exec_rel (R := fun h h' => KeepsTerminal h.runs h'.runs) (fun h => .refl h.runs)
    (fun _ _ _ => .trans)
    (fun h op hi hn => ⟨inv_step h op hi, step_keepsTerminal hi hn⟩) hi hn

/-- A history from an empty table of runs is a state machine exactly when no worker finishes a
run successfully after that run was ended by someone else. -/
theorem stateMachine_iff (s : Store) (ops : List Op) :
    StateMachine (.init s) ops ↔ Along step NoLateSuccess (.init s) ops := by
  constructor
  · intro hm
    have hkeeps : Along step (fun h op => KeepsTerminal h.runs (step h op).runs) (.init s) ops := by
      refine Along.of_prefix fun pre op suf he => ?_
      have := hm.terminal pre [op] suf (by rw [he, List.append_assoc]; rfl)
      rwa [exec_append] at this
    exact (Along.imp_of_inv inv_step (fun h op hi hk => noLateSuccess_of_keepsTerminal hi hk)
      (inv_init s)) hkeeps
  · intro hn
    have hterm : ∀ pre mid suf, ops = pre ++ mid ++ suf →
        KeepsTerminal (exec step (.init s) pre).runs (exec step (.init s) (pre ++ mid)).runs := by
      intro pre mid suf he
      rw [he, List.append_assoc] at hn
      rw [exec_append]
      exact exec_keepsTerminal (exec_inv inv_step (inv_init s) pre)
        (Along.append.1 (Along.append.1 hn).2).1
    refine ⟨?_, hterm, ?_, ?_⟩
    · exact (Along.always (fun h op hi _ => inv_step h op hi) (inv_init s) hn).mono fun h hi => hi.oneRunning
    · intro pre mid suf he r hr hst hns scope
      have hk := hterm pre mid suf he
      exact ⟨fun _ _ _ h =>
          not_successful_of_keepsTerminal hk hr hst hns (mem_of_latestSuccessfulRun h),
        fun _ _ h => not_successful_of_keepsTerminal hk hr hst hns (mem_of_recentSuccessfulRuns h)⟩
    · have hboth := Along.always (I := fun h => Inv h ∧ SuccessClean h.runs)
        (fun h op hh hl => ⟨inv_step h op hh.1, step_successClean hh.1 hh.2 hl⟩)
        ⟨inv_init s, fun r hr => absurd hr (Table.not_mem_empty r)⟩ hn
      exact hboth.mono fun h hh => hh.2

/-! ## A late finish -/

def lateScope : Scope where
  accountId := 0
  region := "eu-west-1"
  resourceType := "AWS::RDS::DBInstance"
  source := "aws_rds"

/-- A run is started, a second start with `force` aborts it, and then its worker finishes. -/
def lateFinish : List Op :=
  [.startRun lateScope false none 0, .startRun lateScope true none 10,
    .finishRun 0 true none 3 20]

def lateStore : Store :=
  { Store.empty with accounts := Table.empty.put ⟨0, "123456789012", none⟩ }

/-- The aborted run ends up successful, still with the error of the abort, and proves its scope. -/
theorem late_finish_revives :
    ¬ StateMachine (.init lateStore) lateFinish ∧
      (latestSuccessfulRun (exec step (.init lateStore) lateFinish).store lateScope none 30).map
        (fun r => (r.id, r.status, r.error)) = some (0, .success, some abortedError) := by
  refine ⟨?_, by decide +kernel⟩
  intro hm
  have hrow : (exec step (.init lateStore) (lateFinish.take 2)).runs.get? 0 =
      some (aborted 10 (newRun lateStore lateScope none 0)) := by decide +kernel
  have hlast : ((exec step (.init lateStore) lateFinish).runs.get? 0).map (·.status) =
      some .success := by decide +kernel
  obtain ⟨r', hr', hid, hst⟩ := hm.terminal (lateFinish.take 2) (lateFinish.drop 2) [] rfl _
    (Table.get?_eq_some.1 hrow).1 (by decide)
  rw [show (exec step (.init lateStore) lateFinish).runs.get? 0 = some r' from
    Table.get?_eq_some.2 ⟨hr', hid⟩, Option.map_some, hst] at hlast
  cases hlast

end SourceRuns

end Constat
