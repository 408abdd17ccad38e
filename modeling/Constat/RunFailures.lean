import Constat.ChargebackRun
import Constat.Lib.Loop

/-!
# RunFailures

`run_resource_rule` and `run_chargeback` with failures. The row of the run is committed first, in
status running; the previous output is deleted, the new one inserted and logged, and all of it is
committed at the end together with the row's final status. A failure between the two commits rolls
the output back and leaves the row as it is. A failure while one resource (or account) is evaluated
is swallowed, unless it leaves the session unusable: then every later statement raises.

* `Plan`    — what fails: a stage of the run, with the writes it had made, or an evaluation.
* `conduct` — the stages of a run, its loop, and the final commit, under a plan.
* `Settled` — no run is left running, and a run that raised has not changed the output.
-/

namespace Constat

namespace RunFailures

open Runner

/-! ## Failures -/

/-- A stage that fails has made some writes that nobody has committed. -/
structure Failure where
  writes : List Write
  error : PyError

/-- An evaluation that fails has inserted some of its rows. `breaks` is what the session raises from
then on, if it cannot be used until it is rolled back. -/
structure EvalFailure where
  inserted : Nat
  error : PyError
  breaks : Option PyError

inductive Point where
  | begin
  | resources
  | snapshot
  | acks
  | deleteInsights
  | deleteInconclusive
  | facts
  | accountNames
  | accountIds
  | reconcile
  | applyAcks
  | events
  | audit
  | finish
deriving DecidableEq

structure Plan where
  stage : Point → Option Failure
  evaluation : Uuid → Option EvalFailure

/-- Nothing fails. -/
def Plan.clean : Plan := ⟨fun _ => none, fun _ => none⟩

abbrev Stage := Point × (DbSession → DbSession)

def runStage (plan : Plan) (s : DbSession) (stage : Stage) :
    Except (DbSession × PyError) DbSession :=
  match plan.stage stage.1 with
  | some failure => .error (s.writes failure.writes, failure.error)
  | none => .ok (stage.2 s)

def runStages (plan : Plan) (stages : List Stage) (s : DbSession) :
    Except (DbSession × PyError) DbSession :=
  stages.foldlM (runStage plan) s

/-- The loop over the resources or accounts, and the error of a session it has left unusable. -/
structure Looped (α : Type) where
  session : DbSession
  result : α
  broken : Option PyError

/-- A run after its row is committed: the stages before the loop, the loop, the stages after it, and
the commit. -/
def conduct {α : Type} (plan : Plan) (before : List Stage) (loop : DbSession → Looped α)
    (after : Looped α → List Stage) (last : Looped α → DbSession → DbSession) (s : DbSession) :
    DbSession × Except PyError α :=
  match runStages plan before s with
  | .error (s, e) => (s, .error e)
  | .ok s =>
    let looped := loop s
    match looped.broken with
    | some e => (looped.session, .error e)
    | none =>
      match runStages plan (after looped) looped.session with
      | .error (s, e) => (s, .error e)
      | .ok s =>
        match plan.stage .finish with
        | some failure => ((last looped s).writes failure.writes, .error failure.error)
        | none => ((last looped s).commit, .ok looped.result)

/-! ## The two functions -/

/-- The rows an evaluation has inserted when it fails: insights first. -/
def insertFirst (n : Nat) (out : List Insight × List Inconclusive) (now : Micros)
    (s : DbSession) : DbSession :=
  let s := (out.1.take n).foldl (fun s i => Insights.insertInsight s i now) s
  (out.2.take (n - out.1.length)).foldl (fun s i => Insights.insertInconclusive s i now) s

def evaluateIntoUnder (plan : Plan) (rule : ResourceRule) (env : RunEnv)
    (facts : Uuid → List Fact) (st : Looped LoopState) (r : Resource) : Looped LoopState :=
  match st.broken with
  | some e => { st with result := { st.result with
      errors := st.result.errors ++ [Uuid.text r.id ++ ": " ++ e.msg] } }
  | none =>
    match plan.evaluation r.id with
    | none =>
      let loop := evaluateInto rule env facts st.result r
      ⟨loop.session, loop, none⟩
    | some failure =>
      let out := output (evaluateResource st.session.working r rule env (facts r.id))
      let s := insertFirst failure.inserted out env.now st.session
      ⟨s, {
        session := s
        insightsEmitted := st.result.insightsEmitted + (out.1.take failure.inserted).length
        inconclusiveEmitted := st.result.inconclusiveEmitted +
          (out.2.take (failure.inserted - out.1.length)).length
        errors := st.result.errors ++ [Uuid.text r.id ++ ": " ++ failure.error.msg] },
        failure.breaks⟩

def evaluateAllUnder (plan : Plan) (rule : ResourceRule) (env : RunEnv) (s : DbSession) :
    Looped LoopState :=
  s.working.resources.rows.foldl (evaluateIntoUnder plan rule env (factsOf s.working))
    ⟨s, ⟨s, 0, 0, []⟩, none⟩

def resourceResult (rule : ResourceRule) (scanned : Nat) (loop : LoopState) : Runner.RunResult where
  ruleName := rule.name
  resourcesScanned := scanned
  insightsEmitted := loop.insightsEmitted
  inconclusiveEmitted := loop.inconclusiveEmitted
  errors := loop.errors

def resourceBefore (rule : ResourceRule) : List Stage :=
  [(.resources, id), (.snapshot, id), (.acks, id),
    (.deleteInsights, fun s => Insights.deleteInsightsForRule s rule.name),
    (.deleteInconclusive, fun s => Insights.deleteInconclusiveForRule s rule.name),
    (.facts, id)]

/-- The stages after the loop; the snapshots were read from `t`. -/
def resourceAfter (fp : Arith) (rule : ResourceRule) (env : RunEnv) (run : InsightRunRow)
    (t : Store) : List Stage :=
  [(.reconcile, fun s => Reconcile.reconcileWithFocus fp s rule.name),
    (.applyAcks, fun s =>
      Insights.applyAcksToRule s rule.name (Insights.snapshotAcks t rule.name)),
    (.events, fun s => InsightEvents.diffAndRecordEvents fp s rule.name
      (InsightEvents.snapshotRule t rule.name) run.id env.now)]

def runResourceRuleUnder (plan : Plan) (fp : Arith) (rule : ResourceRule) (env : RunEnv)
    (s : DbSession) : DbSession × Except PyError Runner.RunResult :=
  match plan.stage .begin with
  | some failure => (s.writes failure.writes, .error failure.error)
  | none =>
    let run := newInsightRun s.working rule.name env.now
    let s := beginRun s rule env
    let scanned := s.working.resources.rows.length
    let out := conduct plan (resourceBefore rule) (evaluateAllUnder plan rule env)
      (fun _ => resourceAfter fp rule env run s.working)
      (fun looped s => s.write (.insightRun (finishedRun run scanned
        looped.result.insightsEmitted looped.result.errors env.now)))
      s
    (out.1, out.2.map (resourceResult rule scanned))

def addAccountUnder (plan : Plan) (fp : Arith) (env : Chargeback.Env)
    (st : Looped Chargeback.LoopState) (account : Uuid) : Looped Chargeback.LoopState :=
  let failed := fun e : PyError =>
    st.result.errors ++ ["account " ++ Uuid.text account ++ ": " ++ e.msg]
  match st.broken with
  | some e => { st with result := { st.result with errors := failed e } }
  | none =>
    match plan.evaluation account with
    | none =>
      let loop := Chargeback.addAccount fp env st.result account
      ⟨loop.session, loop, none⟩
    | some failure =>
      let insights := Chargeback.emittedFor fp env st.session.working account
      let s := insertFirst failure.inserted (insights, []) env.now st.session
      ⟨s, {
        session := s
        insightsEmitted := st.result.insightsEmitted + (insights.take failure.inserted).length
        errors := failed failure.error },
        failure.breaks⟩

def addAccountsUnder (plan : Plan) (fp : Arith) (env : Chargeback.Env) (s : DbSession) :
    Looped Chargeback.LoopState :=
  (Chargeback.accountIds env s.working).foldl (addAccountUnder plan fp env)
    ⟨s, ⟨s, 0, []⟩, none⟩

def chargebackResult (env : Chargeback.Env) (scanned : Nat) (loop : Chargeback.LoopState) :
    Chargeback.RunResult where
  ruleName := "chargeback"
  resourcesScanned := scanned
  insightsEmitted := loop.insightsEmitted
  inconclusiveEmitted := 0
  errors := loop.errors
  periodLabel := Chargeback.effectiveLabel env

def chargebackBefore : List Stage :=
  [(.snapshot, id), (.acks, id),
    (.deleteInsights, fun s => Insights.deleteInsightsForRule s "chargeback"),
    (.accountNames, id), (.accountIds, id)]

/-- The row of the run gets its status before the acknowledgements are carried over. -/
def chargebackAfter (fp : Arith) (env : Chargeback.Env) (run : InsightRunRow) (scanned : Nat)
    (t : Store) (looped : Looped Chargeback.LoopState) : List Stage :=
  [(.applyAcks, fun s => Insights.applyAcksToRule (s.write (.insightRun (finishedRun run scanned
      looped.result.insightsEmitted looped.result.errors env.now))) "chargeback"
        (Insights.snapshotAcks t "chargeback")),
    (.events, fun s => InsightEvents.diffAndRecordEvents fp s "chargeback"
      (InsightEvents.snapshotRule t "chargeback") run.id env.now),
    (.audit, fun s => s.write (.auditEvent (Chargeback.auditEvent s.working env scanned
      looped.result.insightsEmitted looped.result.errors.length)))]

def runChargebackUnder (plan : Plan) (fp : Arith) (env : Chargeback.Env) (s : DbSession) :
    DbSession × Except PyError Chargeback.RunResult :=
  match plan.stage .begin with
  | some failure => (s.writes failure.writes, .error failure.error)
  | none =>
    let run := newInsightRun s.working "chargeback" env.now
    let s := (s.write (.insightRun run)).commit
    let scanned := (Chargeback.accountIds env s.working).length
    let out := conduct plan chargebackBefore (addAccountsUnder plan fp env)
      (chargebackAfter fp env run scanned s.working) (fun _ s => s) s
    (out.1, out.2.map (chargebackResult env scanned))

/-! ## Stages -/

/-- None of the stages fails. -/
def Clear (plan : Plan) (stages : List Stage) : Prop := ∀ st ∈ stages, plan.stage st.1 = none

/-- The stages commit nothing. -/
def Pending (stages : List Stage) : Prop := ∀ st ∈ stages, ∀ s, (st.2 s).committed = s.committed

theorem runStages_of_clear {plan : Plan} {stages : List Stage} (h : Clear plan stages)
    (s : DbSession) : runStages plan stages s = .ok (stages.foldl (fun s st => st.2 s) s) := by
  induction stages generalizing s with
  | nil => rfl
  | cons st stages ih =>
    have hfirst : runStage plan s st = .ok (st.2 s) := by
      rw [runStage, h st List.mem_cons_self]
    rw [runStages, List.foldlM_cons, hfirst]
    exact ih (fun st' hst' => h st' (List.mem_cons_of_mem st hst')) _

theorem committed_foldl {stages : List Stage} (h : Pending stages) (s : DbSession) :
    (stages.foldl (fun s st => st.2 s) s).committed = s.committed := by
  induction stages generalizing s with
  | nil => rfl
  | cons st stages ih =>
    rw [List.foldl_cons, ih fun st' hst' => h st' (List.mem_cons_of_mem st hst')]
    exact h st List.mem_cons_self s

/-- A stage fails, and nothing is committed. -/
theorem runStages_of_not_clear {plan : Plan} {stages : List Stage} (h : ¬ Clear plan stages)
    (hpending : Pending stages) (s : DbSession) :
    ∃ s' e, runStages plan stages s = .error (s', e) ∧ s'.committed = s.committed := by
  induction stages generalizing s with
  | nil => exact absurd (fun st hst => by cases hst) h
  | cons st stages ih =>
    rw [runStages, List.foldlM_cons]
    cases hst : plan.stage st.1 with
    | some failure =>
      refine ⟨s.writes failure.writes, failure.error, ?_, Session.writes_committed _ _⟩
      rw [runStage, hst]
      rfl
    | none =>
      have hrest : ¬ Clear plan stages := by
        intro hclear
        refine h fun st' hst' => ?_
        rcases List.mem_cons.1 hst' with rfl | hst'
        · exact hst
        · exact hclear st' hst'
      obtain ⟨s', e, herror, hcommitted⟩ := ih hrest
        (fun st' hst' => hpending st' (List.mem_cons_of_mem st hst')) (st.2 s)
      refine ⟨s', e, ?_, hcommitted.trans (hpending st List.mem_cons_self s)⟩
      rw [runStage, hst]
      exact herror

theorem writes_foldl {p : Write → Bool} {stages : List Stage}
    (h : ∀ st ∈ stages, ∀ s, Session.WritesOnly p s (st.2 s)) (s : DbSession) :
    Session.WritesOnly p s (stages.foldl (fun s st => st.2 s) s) := by
  induction stages generalizing s with
  | nil => exact Session.WritesOnly.refl _ _
  | cons st stages ih =>
    exact (h st List.mem_cons_self s).trans
      (ih (fun st' hst' => h st' (List.mem_cons_of_mem st hst')) (st.2 s))

section

variable {α : Type} {plan : Plan} {before : List Stage} {loop : DbSession → Looped α}
  {after : Looped α → List Stage}

/-- The loop as it comes after the stages before it. -/
def loopAfter (before : List Stage) (loop : DbSession → Looped α) (s : DbSession) : Looped α :=
  loop (before.foldl (fun s st => st.2 s) s)

/-- Nothing that ends the run fails. -/
structure Survives (plan : Plan) (before : List Stage) (loop : DbSession → Looped α)
    (after : Looped α → List Stage) (s : DbSession) : Prop where
  start : Clear plan before
  usable : (loopAfter before loop s).broken = none
  rest : Clear plan (after (loopAfter before loop s))
  commit : plan.stage .finish = none

theorem conduct_of_survives (last : Looped α → DbSession → DbSession) {s : DbSession}
    (h : Survives plan before loop after s) :
    let looped := loopAfter before loop s
    conduct plan before loop after last s =
      ((last looped ((after looped).foldl (fun s st => st.2 s) looped.session)).commit,
        .ok looped.result) := by
  have hbroken := h.usable
  have hafter := h.rest
  simp only [loopAfter] at hbroken hafter
  simp only [conduct, runStages_of_clear h.start, hbroken, runStages_of_clear hafter, h.commit,
    loopAfter]

/-- A run that does not survive raises and leaves what was committed. -/
theorem conduct_of_not_survives (last : Looped α → DbSession → DbSession) {s : DbSession}
    (h : ¬ Survives plan before loop after s) (hbefore : Pending before)
    (hloop : ∀ s, (loop s).session.committed = s.committed)
    (hafter : ∀ looped, Pending (after looped))
    (hlast : ∀ looped s, (last looped s).committed = s.committed) :
    ∃ e, (conduct plan before loop after last s).2 = .error e ∧
      (conduct plan before loop after last s).1.committed = s.committed := by
  by_cases hclear : Clear plan before
  · have hstart := committed_foldl hbefore s
    simp only [conduct, runStages_of_clear hclear]
    have hmid := (hloop (before.foldl (fun s st => st.2 s) s)).trans hstart
    cases hbroken : (loop (before.foldl (fun s st => st.2 s) s)).broken with
    | some e => exact ⟨e, rfl, hmid⟩
    | none =>
      by_cases hclear' : Clear plan (after (loop (before.foldl (fun s st => st.2 s) s)))
      · simp only [runStages_of_clear hclear']
        cases hfinish : plan.stage .finish with
        | none => exact absurd ⟨hclear, hbroken, hclear', hfinish⟩ h
        | some failure =>
          refine ⟨failure.error, rfl, ?_⟩
          rw [Session.writes_committed, hlast, committed_foldl (hafter _), hmid]
      · obtain ⟨s', e, herror, hcommitted⟩ := runStages_of_not_clear hclear' (hafter _)
          (loop (before.foldl (fun s st => st.2 s) s)).session
        simp only [herror]
        exact ⟨e, rfl, hcommitted.trans hmid⟩
  · obtain ⟨s', e, herror, hcommitted⟩ := runStages_of_not_clear hclear hbefore s
    simp only [conduct, herror]
    exact ⟨e, rfl, hcommitted⟩

/-- What a run commits after its row, if anything, is what its stages have written. -/
theorem conduct_keeps {p : Write → Bool} (last : Looped α → DbSession → DbSession)
    (hbefore : ∀ st ∈ before, ∀ s, Session.WritesOnly p s (st.2 s))
    (hloop : ∀ s, Session.WritesOnly p s (loop s).session)
    (hafter : ∀ looped, ∀ st ∈ after looped, ∀ s, Session.WritesOnly p s (st.2 s))
    (hlast : ∀ looped s, Session.WritesOnly p s (last looped s)) (s : DbSession) :
    (conduct plan before loop after last s).1.committed = s.committed ∨
      ∃ s', Session.WritesOnly p s s' ∧
        (conduct plan before loop after last s).1.committed = s'.working := by
  by_cases h : Survives plan before loop after s
  · refine .inr ⟨_, ?_, congrArg (fun out => out.1.committed) (conduct_of_survives last h)⟩
    exact ((writes_foldl hbefore s).trans (hloop _)).trans
      ((writes_foldl (hafter _) _).trans (hlast _ _))
  · obtain ⟨_, _, hcommitted⟩ := conduct_of_not_survives last h
      (fun st hst s => (hbefore st hst s).committed) (fun s => (hloop s).committed)
      (fun looped st hst s => (hafter looped st hst s).committed)
      (fun looped s => (hlast looped s).committed)
    exact .inl hcommitted

/-- Whatever fails, a run stays in its session. -/
theorem runStages_base (plan : Plan) {stages : List Stage}
    (h : ∀ st ∈ stages, ∀ s, (st.2 s).base = s.base) (s : DbSession) :
    (∀ s', runStages plan stages s = .ok s' → s'.base = s.base) ∧
      ∀ s' e, runStages plan stages s = .error (s', e) → s'.base = s.base := by
  induction stages generalizing s with
  | nil => exact ⟨fun s' hok => (by cases hok; rfl), fun s' e herr => (by cases herr)⟩
  | cons st stages ih =>
    rw [runStages, List.foldlM_cons]
    cases hst : plan.stage st.1 with
    | some failure =>
      have hfirst : runStage plan s st = .error (s.writes failure.writes, failure.error) := by
        rw [runStage, hst]
      rw [hfirst]
      refine ⟨fun s' hok => (by cases hok), fun s' e herr => ?_⟩
      cases herr
      exact Session.writes_base _ _
    | none =>
      have hfirst : runStage plan s st = .ok (st.2 s) := by rw [runStage, hst]
      have hbase := h st List.mem_cons_self s
      obtain ⟨hok, herr⟩ := ih (fun st' hst' => h st' (List.mem_cons_of_mem st hst')) (st.2 s)
      rw [hfirst]
      exact ⟨fun s' hs' => (hok s' hs').trans hbase, fun s' e hs' => (herr s' e hs').trans hbase⟩

theorem conduct_base (last : Looped α → DbSession → DbSession)
    (hbefore : ∀ st ∈ before, ∀ s, (st.2 s).base = s.base)
    (hloop : ∀ s, (loop s).session.base = s.base)
    (hafter : ∀ looped, ∀ st ∈ after looped, ∀ s, (st.2 s).base = s.base)
    (hlast : ∀ looped s, (last looped s).base = s.base) (s : DbSession) :
    (conduct plan before loop after last s).1.base = s.base := by
  obtain ⟨hok, herr⟩ := runStages_base plan hbefore s
  simp only [conduct]
  split
  · rename_i s₁ e hstages
    exact herr s₁ e hstages
  · rename_i s₁ hstages
    have hstart := (hloop s₁).trans (hok s₁ hstages)
    obtain ⟨hok', herr'⟩ := runStages_base plan (hafter (loop s₁)) (loop s₁).session
    split
    · exact hstart
    · split
      · rename_i s₂ e hstages'
        exact (herr' s₂ e hstages').trans hstart
      · rename_i s₂ hstages'
        have hend := (hlast (loop s₁) s₂).trans ((hok' s₂ hstages').trans hstart)
        split
        · exact (Session.writes_base _ _).trans hend
        · exact hend

/-- A run that returns has committed everything. -/
theorem conduct_pending (last : Looped α → DbSession → DbSession) {s : DbSession} {a : α}
    (h : (conduct plan before loop after last s).2 = .ok a) :
    (conduct plan before loop after last s).1.pending = [] := by
  simp only [conduct] at h ⊢
  split at h
  · cases h
  · split at h
    · cases h
    · split at h
      · cases h
      · split at h
        · cases h
        · rfl

/-- A loop is broken by the first evaluation that leaves the session unusable. -/
theorem broken_foldl {β : Type} (plan : Plan) {f : Looped α → β → Looped α} (key : β → Uuid)
    (hkeep : ∀ st x, st.broken ≠ none → (f st x).broken = st.broken)
    (hnext : ∀ st x, st.broken = none →
      (f st x).broken = (plan.evaluation (key x)).bind (·.breaks))
    (xs : List β) (st : Looped α) :
    (xs.foldl f st).broken = none ↔
      st.broken = none ∧ ∀ x ∈ xs, (plan.evaluation (key x)).bind (·.breaks) = none := by
  induction xs generalizing st with
  | nil => simp
  | cons x xs ih =>
    rw [List.foldl_cons, ih, List.forall_mem_cons]
    by_cases hst : st.broken = none
    · rw [hnext st x hst]
      exact ⟨fun ⟨hx, hxs⟩ => ⟨hst, hx, hxs⟩, fun ⟨_, hx, hxs⟩ => ⟨hx, hxs⟩⟩
    · rw [hkeep st x hst]
      exact ⟨fun ⟨hnone, _⟩ => absurd hnone hst, fun ⟨hnone, _⟩ => absurd hnone hst⟩

end

/-! ## The loops -/

open Session (WritesOnly)

theorem insertFirst_spec (n : Nat) (out : List Insight × List Inconclusive) (now : Micros)
    (s : DbSession) :
    WritesOnly isOutput s (insertFirst n out now s) ∧
      Appended now s.working (insertFirst n out now s).working (out.1.take n)
        (out.2.take (n - out.1.length)) := by
  obtain ⟨hw, hrows⟩ := insertAll_spec (out.1.take n) s now
  obtain ⟨hw', hrows'⟩ := insertAllInconclusive_spec (out.2.take (n - out.1.length))
    ((out.1.take n).foldl (fun s i => Insights.insertInsight s i now) s) now
  have hboth := hrows.trans hrows'
  rw [List.append_nil, List.nil_append] at hboth
  exact ⟨hw.trans hw', hboth⟩

/-- A loop over the rule's subjects appends insights of the rule. -/
structure Adds (name : String) (now : Micros) (s s' : DbSession) : Prop where
  writes : WritesOnly isOutput s s'
  rows : ∃ is incs, Appended now s.working s'.working is incs ∧ ∀ i ∈ is, i.ruleName = name

namespace Adds

variable {name : String} {now : Micros} {s s' s'' : DbSession}

theorem refl (name : String) (now : Micros) (s : DbSession) : Adds name now s s :=
  ⟨WritesOnly.refl _ _, [], [], Appended.refl _ _, fun i hi => by cases hi⟩

theorem trans (h : Adds name now s s') (h' : Adds name now s' s'') : Adds name now s s'' := by
  obtain ⟨hw, is, incs, hrows, his⟩ := h
  obtain ⟨hw', is', incs', hrows', his'⟩ := h'
  exact ⟨hw.trans hw', is ++ is', incs ++ incs', hrows.trans hrows',
    List.forall_mem_append.2 ⟨his, his'⟩⟩

end Adds

theorem adds_evaluateInto (plan : Plan) (rule : ResourceRule) (env : RunEnv) {t : Store}
    (st : Looped LoopState) (r : Resource) (hst : st.result.session = st.session)
    (hruns : st.session.working.sourceRuns = t.sourceRuns) :
    Adds rule.name env.now st.session
        (evaluateIntoUnder plan rule env (factsOf t) st r).session ∧
      (evaluateIntoUnder plan rule env (factsOf t) st r).result.session =
        (evaluateIntoUnder plan rule env (factsOf t) st r).session := by
  have hemitted : ∀ i ∈ (output (evaluateResource st.session.working r rule env
      (factsOf t r.id))).1, i.ruleName = rule.name := by
    rw [evaluateResource_congr hruns]
    exact fun i hi => (mem_emitted hi).1
  simp only [evaluateIntoUnder]
  split
  · exact ⟨Adds.refl _ _ _, hst⟩
  · split
    · obtain ⟨hw, hrows⟩ := evaluateInto_spec rule env (factsOf t) st.result r
      rw [hst] at hw hrows
      exact ⟨⟨hw, _, _, hrows, hemitted⟩, rfl⟩
    · obtain ⟨hw, hrows⟩ := insertFirst_spec _ _ env.now st.session
      exact ⟨⟨hw, _, _, hrows, fun i hi => hemitted i (List.mem_of_mem_take hi)⟩, rfl⟩

theorem adds_evaluateAll (plan : Plan) (rule : ResourceRule) (env : RunEnv)
    (s : DbSession) : Adds rule.name env.now s (evaluateAllUnder plan rule env s).session := by
  have hloop : ∀ (rs : List Resource) (st : Looped LoopState), st.result.session = st.session →
      st.session.working.sourceRuns = s.working.sourceRuns → Adds rule.name env.now st.session
        (rs.foldl (evaluateIntoUnder plan rule env (factsOf s.working)) st).session := by
    intro rs
    induction rs with
    | nil => exact fun st _ _ => Adds.refl _ _ _
    | cons r rs ih =>
      intro st hst hruns
      obtain ⟨hadds, hst'⟩ := adds_evaluateInto plan rule env st r hst hruns
      have hkept := SameInventory.of_writesOnly (hadds.writes.mono isReport_of_isOutput)
      exact hadds.trans (ih _ hst' (hkept.sourceRuns.trans hruns))
  exact hloop _ ⟨s, ⟨s, 0, 0, []⟩, none⟩ rfl rfl

theorem evaluateAllUnder_writes (plan : Plan) (rule : ResourceRule) (env : RunEnv)
    (s : DbSession) : WritesOnly isOutput s (evaluateAllUnder plan rule env s).session :=
  (adds_evaluateAll plan rule env s).writes

theorem evaluateAllUnder_broken (plan : Plan) (rule : ResourceRule) (env : RunEnv)
    (s : DbSession) : (evaluateAllUnder plan rule env s).broken = none ↔
      ∀ r ∈ s.working.resources, (plan.evaluation r.id).bind (·.breaks) = none := by
  rw [evaluateAllUnder, broken_foldl plan Resource.id]
  · exact ⟨fun h => h.2, fun h => ⟨rfl, h⟩⟩
  · intro st r hst
    simp only [evaluateIntoUnder]
    split
    · rfl
    · rename_i hnone
      exact absurd hnone hst
  · intro st r hst
    simp only [evaluateIntoUnder, hst]
    split
    · rename_i hnone
      rw [hnone]
      rfl
    · rename_i failure hfailure
      rw [hfailure]
      rfl

theorem adds_addAccount (plan : Plan) (fp : Arith) (env : Chargeback.Env)
    (st : Looped Chargeback.LoopState) (account : Uuid) (hst : st.result.session = st.session) :
    Adds "chargeback" env.now st.session (addAccountUnder plan fp env st account).session ∧
      (addAccountUnder plan fp env st account).result.session =
        (addAccountUnder plan fp env st account).session := by
  have hemitted : ∀ i ∈ Chargeback.emittedFor fp env st.session.working account,
      i.ruleName = "chargeback" := by
    intro i hi
    rw [Chargeback.emittedFor_eq] at hi
    obtain ⟨agg, _, rfl⟩ := List.mem_map.1 hi
    rfl
  simp only [addAccountUnder]
  split
  · exact ⟨Adds.refl _ _ _, hst⟩
  · split
    · obtain ⟨hw, hrows⟩ := Chargeback.addAccount_spec fp env st.result account
      rw [hst] at hw hrows
      exact ⟨⟨hw, _, _, hrows, hemitted⟩, rfl⟩
    · obtain ⟨hw, hrows⟩ := insertFirst_spec _ _ env.now st.session
      exact ⟨⟨hw, _, _, hrows, fun i hi => hemitted i (List.mem_of_mem_take hi)⟩, rfl⟩

theorem adds_addAccounts (plan : Plan) (fp : Arith) (env : Chargeback.Env) (s : DbSession) :
    Adds "chargeback" env.now s (addAccountsUnder plan fp env s).session := by
  have hloop : ∀ (accounts : List Uuid) (st : Looped Chargeback.LoopState),
      st.result.session = st.session → Adds "chargeback" env.now st.session
        (accounts.foldl (addAccountUnder plan fp env) st).session := by
    intro accounts
    induction accounts with
    | nil => exact fun st _ => Adds.refl _ _ _
    | cons account accounts ih =>
      intro st hst
      obtain ⟨hadds, hst'⟩ := adds_addAccount plan fp env st account hst
      exact hadds.trans (ih _ hst')
  exact hloop _ ⟨s, ⟨s, 0, []⟩, none⟩ rfl

theorem addAccountsUnder_writes (plan : Plan) (fp : Arith) (env : Chargeback.Env)
    (s : DbSession) : WritesOnly isOutput s (addAccountsUnder plan fp env s).session :=
  (adds_addAccounts plan fp env s).writes

theorem addAccountsUnder_broken (plan : Plan) (fp : Arith) (env : Chargeback.Env)
    (s : DbSession) : (addAccountsUnder plan fp env s).broken = none ↔
      ∀ account ∈ Chargeback.accountIds env s.working,
        (plan.evaluation account).bind (·.breaks) = none := by
  rw [addAccountsUnder, broken_foldl plan id]
  · exact ⟨fun h => h.2, fun h => ⟨rfl, h⟩⟩
  · intro st account hst
    simp only [addAccountUnder]
    split
    · rfl
    · rename_i hnone
      exact absurd hnone hst
  · intro st account hst
    simp only [addAccountUnder, hst]
    split
    · rename_i hnone
      rw [id, hnone]
      rfl
    · rename_i failure hfailure
      rw [id, hfailure]
      rfl

/-! ## Without failures -/

theorem clear_clean (stages : List Stage) : Clear .clean stages := fun _ _ => rfl

theorem evaluateAllUnder_clean (rule : ResourceRule) (env : RunEnv) (s : DbSession) :
    evaluateAllUnder .clean rule env s =
      ⟨(evaluateAll s rule env).session, evaluateAll s rule env, none⟩ := by
  have hloop : ∀ (rs : List Resource) (st : LoopState),
      rs.foldl (evaluateIntoUnder .clean rule env (factsOf s.working)) ⟨st.session, st, none⟩ =
        let loop := rs.foldl (evaluateInto rule env (factsOf s.working)) st
        ⟨loop.session, loop, none⟩ := by
    intro rs
    induction rs with
    | nil => exact fun _ => rfl
    | cons r rs ih => exact fun st => ih (evaluateInto rule env (factsOf s.working) st r)
  exact hloop _ ⟨s, 0, 0, []⟩

theorem addAccountsUnder_clean (fp : Arith) (env : Chargeback.Env) (s : DbSession) :
    addAccountsUnder .clean fp env s =
      ⟨(Chargeback.addAccounts fp env s).session, Chargeback.addAccounts fp env s, none⟩ := by
  have hloop : ∀ (accounts : List Uuid) (st : Chargeback.LoopState),
      accounts.foldl (addAccountUnder .clean fp env) ⟨st.session, st, none⟩ =
        let loop := accounts.foldl (Chargeback.addAccount fp env) st
        ⟨loop.session, loop, none⟩ := by
    intro accounts
    induction accounts with
    | nil => exact fun _ => rfl
    | cons account accounts ih => exact fun st => ih (Chargeback.addAccount fp env st account)
  exact hloop _ ⟨s, 0, []⟩

/-- When nothing fails the runs are those of the runner. -/
theorem runResourceRuleUnder_clean (fp : Arith) (rule : ResourceRule) (env : RunEnv)
    (s : DbSession) : runResourceRuleUnder .clean fp rule env s =
      ((runResourceRule fp rule env s).1, .ok (runResourceRule fp rule env s).2) := by
  have hsurvives : Survives .clean (resourceBefore rule) (evaluateAllUnder .clean rule env)
      (fun _ => resourceAfter fp rule env (newInsightRun s.working rule.name env.now)
        (beginRun s rule env).working) (beginRun s rule env) :=
    ⟨clear_clean _, by rw [loopAfter, evaluateAllUnder_clean], clear_clean _, rfl⟩
  simp only [runResourceRuleUnder, Plan.clean] at hsurvives ⊢
  rw [conduct_of_survives _ hsurvives]
  have hloop := evaluateAllUnder_clean rule env
    ((resourceBefore rule).foldl (fun s st => st.2 s) (beginRun s rule env))
  simp only [Plan.clean] at hloop
  simp only [loopAfter, hloop]
  rfl

theorem runChargebackUnder_clean (fp : Arith) (env : Chargeback.Env) (s : DbSession) :
    runChargebackUnder .clean fp env s =
      ((Chargeback.runChargeback fp env s).1, .ok (Chargeback.runChargeback fp env s).2) := by
  let s₁ := (s.write (.insightRun (newInsightRun s.working "chargeback" env.now))).commit
  have hsurvives : Survives .clean chargebackBefore (addAccountsUnder .clean fp env)
      (chargebackAfter fp env (newInsightRun s.working "chargeback" env.now)
        (Chargeback.accountIds env s₁.working).length s₁.working) s₁ :=
    ⟨clear_clean _, by rw [loopAfter, addAccountsUnder_clean], clear_clean _, rfl⟩
  simp only [runChargebackUnder, Plan.clean] at hsurvives ⊢
  rw [conduct_of_survives _ hsurvives]
  have hloop := addAccountsUnder_clean fp env (chargebackBefore.foldl (fun s st => st.2 s) s₁)
  simp only [Plan.clean] at hloop
  simp only [loopAfter, s₁, hloop]
  rfl

/-! ## A call and what it leaves -/

inductive Call where
  | resource (rule : ResourceRule) (env : RunEnv)
  | chargeback (env : Chargeback.Env)

def raised {α : Type} : Except PyError α → Option PyError
  | .error e => some e
  | .ok _ => none

def runUnder (plan : Plan) (fp : Arith) (s : DbSession) : Call → DbSession × Option PyError
  | .resource rule env =>
    ((runResourceRuleUnder plan fp rule env s).1, raised (runResourceRuleUnder plan fp rule env s).2)
  | .chargeback env =>
    ((runChargebackUnder plan fp env s).1, raised (runChargebackUnder plan fp env s).2)

/-- The store once the caller has committed or rolled back; what has raised is rolled back. -/
def afterCall (commits : Bool) (out : DbSession × Option PyError) : Store :=
  match out.2 with
  | some _ => out.1.rollback.close
  | none => if commits then out.1.commit.close else out.1.rollback.close

/-- No run is left running, and a call that raised has not changed the output. -/
structure Settled (t t' : Store) (raised : Option PyError) : Prop where
  ended : ∀ run ∈ t'.insightRuns, run.status ≠ .running
  atomic : raised ≠ none → t'.insights = t.insights ∧ t'.inconclusive = t.inconclusive ∧
    t'.insightEvents = t.insightEvents

def points : Call → List Point
  | .resource _ _ => [.resources, .snapshot, .acks, .deleteInsights, .deleteInconclusive, .facts,
    .reconcile, .applyAcks, .events, .finish]
  | .chargeback _ => [.snapshot, .acks, .deleteInsights, .accountNames, .accountIds, .applyAcks,
    .events, .audit, .finish]

def subjects (t : Store) : Call → List Uuid
  | .resource _ _ => t.resources.rows.map (·.id)
  | .chargeback env => Chargeback.accountIds env t

/-- After the row of the run is committed no stage fails, and no evaluation leaves the session
unusable. -/
def Undisturbed (plan : Plan) (call : Call) (t : Store) : Prop :=
  (∀ p ∈ points call, plan.stage p = none) ∧
    ∀ id ∈ subjects t call, (plan.evaluation id).bind (·.breaks) = none

theorem settled_of_raised {t : Store} {run : InsightRunRow} {out : DbSession × Option PyError}
    {e : PyError} (hstatus : run.status = .running) (hraised : out.2 = some e)
    (hcommitted : out.1.committed = applyWrite t (.insightRun run)) (commits : Bool) :
    ¬ Settled t (afterCall commits out) out.2 := by
  intro h
  have hended := h.ended run
  simp only [afterCall, hraised, Session.close, Session.rollback_committed, hcommitted] at hended
  exact hended (Table.mem_put_self _ _) hstatus

theorem settled_of_returned {t : Store} {run done : InsightRunRow} {s : DbSession}
    {out : DbSession × Option PyError} (hnext : run.id = t.insightRuns.next)
    (hraised : out.2 = none) (hcommit : out.1 = s.commit)
    (hruns : s.working.insightRuns = (t.insightRuns.put run).put done) (hid : done.id = run.id)
    (hdone : done.status ≠ .running) (commits : Bool) :
    Settled t (afterCall commits out) out.2 ↔ ∀ r ∈ t.insightRuns, r.status ≠ .running := by
  have hstore : afterCall commits out = s.working := by
    simp only [afterCall, hraised, hcommit]
    cases commits <;> rfl
  rw [hstore, hraised]
  constructor
  · intro h r hr
    by_cases hrd : r = done
    · rw [hrd]; exact hdone
    · refine h.ended r ?_
      rw [hruns]
      exact (Table.mem_put_put hnext hid hrd).2 hr
  · intro h
    refine ⟨fun r hr => ?_, fun hne => absurd rfl hne⟩
    by_cases hrd : r = done
    · rw [hrd]; exact hdone
    · rw [hruns] at hr
      exact h r ((Table.mem_put_put hnext hid hrd).1 hr)

/-- The writes of a run between its two commits, the last one of its row aside. -/
def isBody : Write → Bool
  | .insight _ | .inconclusive _ | .insightEvent _ | .deleteInsightsOf _
  | .deleteInconclusiveOf _ | .auditEvent _ => true
  | _ => false

theorem isBody_of_isOutput (w : Write) (h : isOutput w = true) : isBody w = true := by
  cases w <;> first | rfl | cases h

theorem isBody_of_isEvent (w : Write) (h : isEvent w = true) : isBody w = true := by
  cases w <;> first | rfl | cases h

theorem insightRuns_of_body {s s' : DbSession} (h : WritesOnly isBody s s') :
    s'.working.insightRuns = s.working.insightRuns :=
  h.frame Store.insightRuns fun w hw t => by cases w <;> first | rfl | cases hw

theorem finishedRun_status (run : InsightRunRow) (scanned emitted : Nat) (errors : List String)
    (now : Micros) : (finishedRun run scanned emitted errors now).status ≠ .running := by
  simp only [finishedRun]
  split <;> simp

/-- Stages that write only the body of a run. -/
def Body (stages : List Stage) : Prop := ∀ st ∈ stages, ∀ s, WritesOnly isBody s (st.2 s)

theorem Body.pending {stages : List Stage} (h : Body stages) : Pending stages :=
  fun st hst s => (h st hst s).committed

theorem Body.foldl {stages : List Stage} (h : Body stages) (s : DbSession) :
    WritesOnly isBody s (stages.foldl (fun s st => st.2 s) s) := writes_foldl h s

theorem body_resourceBefore (rule : ResourceRule) : Body (resourceBefore rule) := by
  intro st hst s
  simp only [resourceBefore, List.mem_cons, List.not_mem_nil, or_false] at hst
  rcases hst with rfl | rfl | rfl | rfl | rfl | rfl
  · exact WritesOnly.refl _ _
  · exact WritesOnly.refl _ _
  · exact WritesOnly.refl _ _
  · exact WritesOnly.write _ rfl
  · exact WritesOnly.write _ rfl
  · exact WritesOnly.refl _ _

theorem body_resourceAfter (fp : Arith) (rule : ResourceRule) (env : RunEnv)
    (run : InsightRunRow) (t : Store) : Body (resourceAfter fp rule env run t) := by
  have hinsight : ∀ w, isInsight w = true → isBody w = true :=
    fun w hw => isBody_of_isOutput w (isOutput_of_isInsight w hw)
  intro st hst s
  simp only [resourceAfter, List.mem_cons, List.not_mem_nil, or_false] at hst
  rcases hst with rfl | rfl | rfl
  · exact (writesOnly_insights _ _).mono hinsight
  · exact (writesOnly_insights _ _).mono hinsight
  · exact (diffAndRecordEvents_spec fp s rule.name _ run.id env.now).1.mono isBody_of_isEvent

theorem clear_iff {plan : Plan} {stages : List Stage} :
    Clear plan stages ↔ ∀ p ∈ stages.map Prod.fst, plan.stage p = none := by
  simp [Clear]

/-- How a run ends whose row is `run`: undisturbed it commits its writes and the final row, else it
raises and the row is all that is committed. -/
def Ends (t : Store) (run : InsightRunRow) (undisturbed : Prop)
    (out : DbSession × Option PyError) : Prop :=
  (undisturbed ∧ ∃ (done : InsightRunRow) (s : DbSession), out.2 = none ∧ out.1 = s.commit ∧
    s.working.insightRuns = (t.insightRuns.put run).put done ∧ done.id = run.id ∧
      done.status ≠ .running) ∨
  (¬ undisturbed ∧ ∃ e, out.2 = some e ∧ out.1.committed = applyWrite t (.insightRun run))

section

variable {α β : Type} {plan : Plan} {before : List Stage} {loop : DbSession → Looped α}
  {after : Looped α → List Stage} {last : Looped α → DbSession → DbSession} {s : DbSession}

theorem survives_iff {points : List Point} {subjects : List Uuid}
    (hpoints : points = before.map Prod.fst ++
      ((after (loopAfter before loop s)).map Prod.fst ++ [.finish]))
    (hbroken : (loopAfter before loop s).broken = none ↔
      ∀ id ∈ subjects, (plan.evaluation id).bind (·.breaks) = none) :
    Survives plan before loop after s ↔ (∀ p ∈ points, plan.stage p = none) ∧
      ∀ id ∈ subjects, (plan.evaluation id).bind (·.breaks) = none := by
  rw [hpoints, List.forall_mem_append, List.forall_mem_append, ← clear_iff, ← clear_iff,
    List.forall_mem_singleton]
  constructor
  · rintro ⟨hstart, husable, hrest, hcommit⟩
    exact ⟨⟨hstart, hrest, hcommit⟩, hbroken.1 husable⟩
  · rintro ⟨⟨hstart, hrest, hcommit⟩, husable⟩
    exact ⟨hstart, hbroken.2 husable, hrest, hcommit⟩

theorem ends_of_conduct {t : Store} {run : InsightRunRow} {undisturbed : Prop} {f : α → β}
    (hsurvives : Survives plan before loop after s ↔ undisturbed)
    (hs : s.committed = applyWrite t (.insightRun run)) (hbefore : Pending before)
    (hloop : ∀ s, (loop s).session.committed = s.committed)
    (hafter : ∀ looped, Pending (after looped))
    (hlast : ∀ looped s, (last looped s).committed = s.committed)
    (hruns : let looped := loopAfter before loop s
      let u := (last looped ((after looped).foldl (fun s st => st.2 s) looped.session)).working
      ∃ done : InsightRunRow, u.insightRuns = (t.insightRuns.put run).put done ∧
        done.id = run.id ∧ done.status ≠ .running) :
    Ends t run undisturbed ((conduct plan before loop after last s).1,
      raised ((conduct plan before loop after last s).2.map f)) := by
  by_cases h : Survives plan before loop after s
  · obtain ⟨done, hruns, hid, hdone⟩ := hruns
    have hrun := conduct_of_survives last h
    exact .inl ⟨hsurvives.1 h, done, _, by rw [hrun]; rfl, by rw [hrun], hruns, hid, hdone⟩
  · obtain ⟨e, herror, hcommitted⟩ := conduct_of_not_survives last h hbefore hloop hafter hlast
    exact .inr ⟨fun hu => h (hsurvives.2 hu), e, by rw [herror]; rfl, hcommitted.trans hs⟩

end

theorem ends_resource {plan : Plan} {fp : Arith} {rule : ResourceRule} {env : RunEnv} {t : Store}
    (hbegin : plan.stage .begin = none) :
    Ends t (newInsightRun t rule.name env.now) (Undisturbed plan (.resource rule env) t)
      (runUnder plan fp (.begin t) (.resource rule env)) := by
  let run := newInsightRun t rule.name env.now
  let s₁ := beginRun (.begin t) rule env
  have hbefore := body_resourceBefore rule
  have hafter := body_resourceAfter fp rule env run s₁.working
  have hbody : WritesOnly isBody s₁ ((resourceAfter fp rule env run s₁.working).foldl
      (fun s st => st.2 s) (loopAfter (resourceBefore rule)
        (evaluateAllUnder plan rule env) s₁).session) :=
    ((hbefore.foldl s₁).trans ((evaluateAllUnder_writes plan rule env _).mono
      isBody_of_isOutput)).trans (hafter.foldl _)
  have hbroken : (loopAfter (resourceBefore rule) (evaluateAllUnder plan rule env) s₁).broken =
      none ↔ ∀ id ∈ subjects t (.resource rule env),
        (plan.evaluation id).bind (·.breaks) = none := by
    rw [subjects, List.forall_mem_map]
    exact evaluateAllUnder_broken plan rule env _
  simp only [runUnder, runResourceRuleUnder, hbegin]
  exact ends_of_conduct (survives_iff rfl hbroken) rfl hbefore.pending
    (fun s => (evaluateAllUnder_writes plan rule env s).committed) (fun _ => hafter.pending)
    (fun _ _ => rfl) ⟨_, congrArg (Table.put · _) (insightRuns_of_body hbody), rfl,
      finishedRun_status _ _ _ _ _⟩

theorem body_chargebackBefore : Body chargebackBefore := by
  intro st hst s
  simp only [chargebackBefore, List.mem_cons, List.not_mem_nil, or_false] at hst
  rcases hst with rfl | rfl | rfl | rfl | rfl
  · exact WritesOnly.refl _ _
  · exact WritesOnly.refl _ _
  · exact WritesOnly.write _ rfl
  · exact WritesOnly.refl _ _
  · exact WritesOnly.refl _ _

theorem pending_chargebackAfter (fp : Arith) (env : Chargeback.Env) (run : InsightRunRow)
    (scanned : Nat) (t : Store) (looped : Looped Chargeback.LoopState) :
    Pending (chargebackAfter fp env run scanned t looped) := by
  intro st hst s
  simp only [chargebackAfter, List.mem_cons, List.not_mem_nil, or_false] at hst
  rcases hst with rfl | rfl | rfl
  · exact (writesOnly_insights _ _).committed
  · exact (diffAndRecordEvents_spec fp s "chargeback" _ run.id env.now).1.committed
  · rfl

theorem base_chargebackAfter (fp : Arith) (env : Chargeback.Env) (run : InsightRunRow)
    (scanned : Nat) (t : Store) (looped : Looped Chargeback.LoopState) :
    ∀ st ∈ chargebackAfter fp env run scanned t looped, ∀ s, (st.2 s).base = s.base := by
  intro st hst s
  simp only [chargebackAfter, List.mem_cons, List.not_mem_nil, or_false] at hst
  rcases hst with rfl | rfl | rfl
  · exact (writesOnly_insights _ _).base
  · exact (diffAndRecordEvents_spec fp s "chargeback" _ run.id env.now).1.base
  · rfl

/-- The last stages put the row of the run with its status, once. -/
theorem insightRuns_chargebackAfter (fp : Arith) (env : Chargeback.Env) (run : InsightRunRow)
    (scanned : Nat) (t : Store) (looped : Looped Chargeback.LoopState) (s : DbSession) :
    ((chargebackAfter fp env run scanned t looped).foldl (fun s st => st.2 s) s).working.insightRuns
      = s.working.insightRuns.put (finishedRun run scanned looped.result.insightsEmitted
        looped.result.errors env.now) := by
  let done := finishedRun run scanned looped.result.insightsEmitted looped.result.errors env.now
  let s₁ := s.write (.insightRun done)
  let s₂ := Insights.applyAcksToRule s₁ "chargeback" (Insights.snapshotAcks t "chargeback")
  have hacks : WritesOnly isBody s₁ s₂ := (writesOnly_insights _ _).mono
    fun w hw => isBody_of_isOutput w (isOutput_of_isInsight w hw)
  have hevents := (diffAndRecordEvents_spec fp s₂ "chargeback"
    (InsightEvents.snapshotRule t "chargeback") run.id env.now).1.mono isBody_of_isEvent
  exact insightRuns_of_body (hacks.trans (hevents.trans (WritesOnly.write _ rfl)))

theorem ends_chargeback {plan : Plan} {fp : Arith} {env : Chargeback.Env} {t : Store}
    (hbegin : plan.stage .begin = none) :
    Ends t (newInsightRun t "chargeback" env.now) (Undisturbed plan (.chargeback env) t)
      (runUnder plan fp (.begin t) (.chargeback env)) := by
  let run := newInsightRun t "chargeback" env.now
  let s₁ : DbSession := ((Session.begin t).write (.insightRun run)).commit
  have hbefore := body_chargebackBefore
  have hbody : WritesOnly isBody s₁
      (loopAfter chargebackBefore (addAccountsUnder plan fp env) s₁).session :=
    (hbefore.foldl s₁).trans ((addAccountsUnder_writes plan fp env _).mono isBody_of_isOutput)
  simp only [runUnder, runChargebackUnder, hbegin]
  exact ends_of_conduct (survives_iff rfl (addAccountsUnder_broken plan fp env _)) rfl
    hbefore.pending (fun s => (addAccountsUnder_writes plan fp env s).committed)
    (pending_chargebackAfter fp env run _ s₁.working) (fun _ _ => rfl)
    ⟨_, (insightRuns_chargebackAfter _ _ _ _ _ _ _).trans
      (congrArg (Table.put · _) (insightRuns_of_body hbody)), rfl, finishedRun_status _ _ _ _ _⟩

/-! ## The session of a run -/

theorem exists_ok_of_map {α β : Type} {f : α → β} {x : Except PyError α} {b : β}
    (h : x.map f = .ok b) : ∃ a, x = .ok a := by
  cases x with
  | error e => cases h
  | ok a => exact ⟨a, rfl⟩

theorem runResourceRuleUnder_base (plan : Plan) (fp : Arith) (rule : ResourceRule) (env : RunEnv)
    (s : DbSession) : (runResourceRuleUnder plan fp rule env s).1.base = s.base := by
  simp only [runResourceRuleUnder]
  split
  · exact Session.writes_base _ _
  · refine (conduct_base _ ?_ ?_ ?_ ?_ (beginRun s rule env)).trans rfl
    · exact fun st hst s => (body_resourceBefore rule st hst s).base
    · exact fun s => (evaluateAllUnder_writes plan rule env s).base
    · exact fun _ st hst s => (body_resourceAfter fp rule env _ _ st hst s).base
    · exact fun _ _ => rfl

theorem runChargebackUnder_base (plan : Plan) (fp : Arith) (env : Chargeback.Env)
    (s : DbSession) : (runChargebackUnder plan fp env s).1.base = s.base := by
  simp only [runChargebackUnder]
  split
  · exact Session.writes_base _ _
  · refine (conduct_base _ ?_ ?_ ?_ ?_ _).trans rfl
    · exact fun st hst s => (body_chargebackBefore st hst s).base
    · exact fun s => (addAccountsUnder_writes plan fp env s).base
    · exact base_chargebackAfter fp env _ _ _
    · exact fun _ _ => rfl

theorem runResourceRuleUnder_pending {plan : Plan} {fp : Arith} {rule : ResourceRule}
    {env : RunEnv} {s : DbSession} {result : Runner.RunResult}
    (h : (runResourceRuleUnder plan fp rule env s).2 = .ok result) :
    (runResourceRuleUnder plan fp rule env s).1.pending = [] := by
  simp only [runResourceRuleUnder] at h ⊢
  split at h
  · cases h
  · obtain ⟨a, ha⟩ := exists_ok_of_map h
    exact conduct_pending _ ha

theorem runChargebackUnder_pending {plan : Plan} {fp : Arith} {env : Chargeback.Env}
    {s : DbSession} {result : Chargeback.RunResult}
    (h : (runChargebackUnder plan fp env s).2 = .ok result) :
    (runChargebackUnder plan fp env s).1.pending = [] := by
  simp only [runChargebackUnder] at h ⊢
  split at h
  · cases h
  · obtain ⟨a, ha⟩ := exists_ok_of_map h
    exact conduct_pending _ ha

/-- No run is left running and the output of a call that raised is untouched precisely when no run
was running before and the call fails, if it does, before the row of its run is committed. -/
theorem settled_iff (plan : Plan) (fp : Arith) (call : Call) (commits : Bool) (t : Store) :
    Settled t (afterCall commits (runUnder plan fp (.begin t) call))
        (runUnder plan fp (.begin t) call).2 ↔
      (∀ run ∈ t.insightRuns, run.status ≠ .running) ∧
        (plan.stage .begin ≠ none ∨ Undisturbed plan call t) := by
  cases hbegin : plan.stage .begin with
  | some failure =>
    have hout : runUnder plan fp (.begin t) call =
        ((Session.begin t).writes failure.writes, some failure.error) := by
      cases call <;>
        simp only [runUnder, runResourceRuleUnder, runChargebackUnder, hbegin, raised]
    have hstore : afterCall commits (runUnder plan fp (.begin t) call) = t := by
      rw [hout]
      exact Session.close_writes_begin t failure.writes
    rw [hstore]
    constructor
    · exact fun h => ⟨h.ended, .inl (by simp)⟩
    · exact fun h => ⟨h.1, fun _ => ⟨rfl, rfl, rfl⟩⟩
  | none =>
    obtain ⟨run, hnext, hstatus, hends⟩ : ∃ run : InsightRunRow, run.id = t.insightRuns.next ∧
        run.status = .running ∧
        Ends t run (Undisturbed plan call t) (runUnder plan fp (.begin t) call) := by
      cases call with
      | resource rule env => exact ⟨_, rfl, rfl, ends_resource hbegin⟩
      | chargeback env => exact ⟨_, rfl, rfl, ends_chargeback hbegin⟩
    rcases hends with ⟨hsmooth, done, s, hraised, hcommit, hruns, hid, hdone⟩ |
      ⟨hrough, e, hraised, hcommitted⟩
    · rw [settled_of_returned hnext hraised hcommit hruns hid hdone]
      exact ⟨fun h => ⟨h, .inr hsmooth⟩, fun h => h.1⟩
    · have hnot := settled_of_raised hstatus hraised hcommitted commits
      constructor
      · exact fun h => absurd h hnot
      · rintro ⟨_, hne | hsmooth⟩
        · exact absurd rfl hne
        · exact absurd hsmooth hrough

/-- The context of the fresh insights cannot be read: the output is rolled back, the row stays. -/
theorem failed_run_left_running :
    let plan : Plan := ⟨fun p => if p = .reconcile then
      some ⟨[], ⟨"OperationalError", "server closed the connection unexpectedly"⟩⟩ else none,
        fun _ => none⟩
    let out := runUnder plan .exact (.begin Store.empty)
      (.resource (Storage.stopped .exact) ⟨0, .ofYmd 2026 1 1, none⟩)
    ¬ Settled Store.empty (afterCall false out) out.2 := by
  intro plan out h
  have hrunning : (afterCall false out).insightRuns.rows.any (·.status = .running) = true := by
    decide +kernel
  obtain ⟨run, hrun, hstatus⟩ := List.any_eq_true.1 hrunning
  exact h.ended run hrun (of_decide_eq_true hstatus)

end RunFailures

end Constat
