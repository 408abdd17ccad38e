import Mathlib.Data.List.Sort
import Constat.Py.Calendar

/-!
# SourceRuns

`repositories/source_runs.py`: the lifecycle of a source run, the record that one scope
(account, region, resource type, source) was scanned. A run that ended in `success` proves its
scope complete, so absence in that scope is proven and not guessed.

The four writers of a run's status are `startRun`, `abortActiveRun`, `finishRun` and
`cleanupStuckRuns`; its readers are `latestSuccessfulRun` (the rules' proof of scope) and
`recentSuccessfulRuns` (the retirement sweep's). The partial unique index on running runs and the
foreign key on the account are `insertable`: an insert that breaks one of them raises, and
`startRun` then rolls the whole session back.
-/

namespace Constat

structure Scope where
  accountId : Uuid
  region : String
  resourceType : String
  source : String
deriving DecidableEq

def SourceRun.scope (r : SourceRun) : Scope where
  accountId := r.accountId
  region := r.region
  resourceType := r.resourceType
  source := r.source

namespace SourceRuns

/-- Two hours. -/
def defaultStuckRunThreshold : Micros := 2 * 3600 * Micros.second

/-- The runs of `scope` that are still running. -/
def activeRuns (s : Store) (scope : Scope) : List SourceRun :=
  s.sourceRuns.rows.filter fun r => r.scope = scope ∧ r.status = .running

/-- The constraints an insert of a running run in `scope` is checked against. -/
def insertable (s : Store) (scope : Scope) : Bool :=
  (s.accounts.get? scope.accountId).isSome && (activeRuns s scope).isEmpty

def abortedError : String := "aborted: superseded by force-start"

def aborted (now : Micros) (r : SourceRun) : SourceRun :=
  { r with finishedAt := some now, status := .failed, error := some abortedError }

/-- Mark any active run in this scope as failed so a new one can start. -/
def abortActiveRun (s : DbSession) (scope : Scope) (now : Micros) : DbSession :=
  s.writes ((activeRuns s.working scope).map fun r => .sourceRun (aborted now r))

/-- The row `start_run` inserts. -/
def newRun (s : Store) (scope : Scope) (jobId : Option Uuid) (startedAt : Micros) : SourceRun where
  id := s.sourceRuns.next
  accountId := scope.accountId
  region := scope.region
  resourceType := scope.resourceType
  source := scope.source
  startedAt := startedAt
  finishedAt := none
  status := .running
  resourcesFound := none
  error := none
  jobId := jobId

/-- Start a new run; `none` if one is already active for this scope. `contended` says that a run
of this scope that this session cannot see yet won the unique index. -/
def startRun (s : DbSession) (scope : Scope) (force : Bool) (jobId : Option Uuid)
    (now : Micros) (contended : Bool) : DbSession × Option SourceRun :=
  let s := if force then abortActiveRun s scope now else s
  let run := newRun s.working scope jobId now
  if insertable s.working scope && !contended then
    (s.write (.sourceRun run), some run)
  else
    (s.rollback, none)

/-- The columns `finish_run` sets on a run. -/
def finished (r : SourceRun) (status : RunStatus) (resourcesFound : Option Nat)
    (error : Option String) (now : Micros) : SourceRun :=
  { r with
    finishedAt := some now
    status := status
    resourcesFound := resourcesFound.or r.resourcesFound
    error := error.or r.error }

/-- Mark a run as done. The status the row had before is not looked at. -/
def finishRun (s : DbSession) (run : Uuid) (status : RunStatus) (resourcesFound : Option Nat)
    (error : Option String) (now : Micros) : DbSession :=
  match s.working.sourceRuns.get? run with
  | none => s
  | some r => s.write (.sourceRun (finished r status resourcesFound error now))

theorem finishRun_eq {s : DbSession} {run : Uuid} {r : SourceRun}
    (hget : s.working.sourceRuns.get? run = some r) (status : RunStatus) (resourcesFound : Option Nat)
    (error : Option String) (now : Micros) : finishRun s run status resourcesFound error now =
      s.write (.sourceRun (finished r status resourcesFound error now)) := by
  rw [finishRun, hget]

/-- The status `_run_region_job` finishes its run with. -/
def jobStatus (scanCompleted : Bool) (regionError : Option String) : RunStatus :=
  if scanCompleted && regionError.isNone then .success else .failed

def stuckRuns (s : Store) (threshold now : Micros) : List SourceRun :=
  s.sourceRuns.rows.filter fun r => r.status = .running ∧ r.startedAt < now - threshold

def cleaned (now : Micros) (r : SourceRun) : SourceRun :=
  { r with
    finishedAt := some now
    status := .failed
    error := some ("stuck_run_cleanup: started_at=" ++ r.startedAt.isoformat) }

/-- Mark runs that have been running for longer than `threshold` as failed. -/
def cleanupStuckRuns (s : DbSession) (threshold now : Micros) : DbSession × Nat :=
  let stuck := stuckRuns s.working threshold now
  let s := s.writes (stuck.map fun r => .sourceRun (cleaned now r))
  (if stuck.isEmpty then s else s.commit, stuck.length)

/-! ## The effect of the writers -/

theorem foldl_applyWrite_sourceRun (s : Store) (rs : List SourceRun) :
    (rs.map Write.sourceRun).foldl applyWrite s = { s with sourceRuns := s.sourceRuns.putAll rs } := by
  induction rs generalizing s with
  | nil => rfl
  | cons r rs ih => rw [List.map_cons, List.foldl_cons, ih]; rfl

theorem abortActiveRun_working (s : DbSession) (scope : Scope) (now : Micros) :
    (abortActiveRun s scope now).working =
      { s.working with sourceRuns :=
          s.working.sourceRuns.putAll ((activeRuns s.working scope).map (aborted now)) } := by
  rw [abortActiveRun, Session.writes_working, ← foldl_applyWrite_sourceRun, List.map_map]
  rfl

/-- After a force-abort the scope has no running run. -/
theorem activeRuns_abortActiveRun (s : DbSession) (scope : Scope) (now : Micros) :
    activeRuns (abortActiveRun s scope now).working scope = [] := by
  rw [activeRuns, List.filter_eq_nil_iff]
  intro r hr
  rw [decide_eq_true_eq]
  rintro ⟨hsc, hrun⟩
  rw [abortActiveRun_working] at hr
  have hnd : (((activeRuns s.working scope).map (aborted now)).map SourceRun.id).Nodup := by
    rw [List.map_map]
    exact s.working.sourceRuns.nodup_filter _
  rcases (Table.mem_putAll hnd).1 hr with h | ⟨h, hne⟩
  · obtain ⟨y, _, rfl⟩ := List.mem_map.1 h
    cases hrun
  · have hact : r ∈ activeRuns s.working scope :=
      List.mem_filter.2 ⟨h, decide_eq_true ⟨hsc, hrun⟩⟩
    exact hne (aborted now r) (List.mem_map.2 ⟨r, hact, rfl⟩) rfl

theorem insertable_iff (s : Store) (scope : Scope) :
    insertable s scope = true ↔
      (s.accounts.get? scope.accountId).isSome ∧
        ∀ r ∈ s.sourceRuns, r.scope = scope → r.status ≠ .running := by
  rw [insertable, Bool.and_eq_true, List.isEmpty_iff, activeRuns, List.filter_eq_nil_iff]
  refine and_congr Iff.rfl ⟨fun h r hr hs hrun => ?_, fun h r hr => ?_⟩
  · exact h r hr (decide_eq_true ⟨hs, hrun⟩)
  · rw [decide_eq_true_eq]; exact fun hc => h r hr hc.1 hc.2

theorem jobStatus_ne_running (scanCompleted : Bool) (regionError : Option String) :
    jobStatus scanCompleted regionError ≠ .running := by
  simp only [jobStatus]
  split <;> intro h <;> cases h

/-! ## Readers -/

def successfulRuns (s : Store) (scope : Scope) : List SourceRun :=
  s.sourceRuns.rows.filter fun r => r.scope = scope ∧ r.status = .success

/-- `ORDER BY finished_at DESC`: a NULL sorts first, as Postgres has it. -/
def finishedDesc (a b : SourceRun) : Bool :=
  match a.finishedAt, b.finishedAt with
  | none, _ => true
  | some _, none => false
  | some t, some u => u ≤ t

/-- The most recent successful run of a scope, if it is not older than `maxAge`. -/
def latestSuccessfulRun (s : Store) (scope : Scope) (maxAge : Option Micros) (now : Micros) :
    Option SourceRun :=
  match ((successfulRuns s scope).insertionSort (finishedDesc · ·)).head? with
  | none => none
  | some run =>
    match maxAge with
    | none => some run
    | some maxAge =>
      match run.finishedAt with
      | none => none
      | some t => if now - t > maxAge then none else some run

/-- The `limit` most recent successful runs of a scope, newest first by `started_at`. -/
def recentSuccessfulRuns (s : Store) (scope : Scope) (limit : Nat) : List SourceRun :=
  ((successfulRuns s scope).insertionSort (fun a b => b.startedAt ≤ a.startedAt)).take limit

theorem mem_of_recentSuccessfulRuns {s : Store} {scope : Scope} {limit : Nat} {run : SourceRun}
    (h : run ∈ recentSuccessfulRuns s scope limit) : run ∈ successfulRuns s scope :=
  (List.mem_insertionSort _).1 (List.mem_of_mem_take h)

/-- The latest successful run is one of the successful runs, and no older than the window. -/
theorem latestSuccessfulRun_spec {s : Store} {scope : Scope} {maxAge : Option Micros}
    {now : Micros} {run : SourceRun} (h : latestSuccessfulRun s scope maxAge now = some run) :
    run ∈ successfulRuns s scope ∧
      ∀ age ∈ maxAge, ∃ t, run.finishedAt = some t ∧ now - age ≤ t := by
  have hmem : ∀ run', ((successfulRuns s scope).insertionSort (finishedDesc · ·)).head? =
      some run' → run' ∈ successfulRuns s scope := fun run' hhead =>
    (List.mem_insertionSort _).1 (List.mem_of_mem_head? (by rw [hhead]; rfl))
  simp only [latestSuccessfulRun] at h
  split at h
  · cases h
  · rename_i run' hhead
    split at h
    · cases h
      exact ⟨hmem run hhead, fun age hage => by cases hage⟩
    · rename_i age
      split at h
      · cases h
      · rename_i t hfinished
        split at h
        · cases h
        · rename_i hage
          cases h
          refine ⟨hmem run hhead, fun age' hage' => ⟨t, hfinished, ?_⟩⟩
          cases hage'
          exact Int.sub_le_of_sub_le (Int.not_lt.1 hage)

theorem mem_of_latestSuccessfulRun {s : Store} {scope : Scope} {maxAge : Option Micros}
    {now : Micros} {run : SourceRun} (h : latestSuccessfulRun s scope maxAge now = some run) :
    run ∈ successfulRuns s scope := (latestSuccessfulRun_spec h).1

end SourceRuns

end Constat
