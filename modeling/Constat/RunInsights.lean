import Constat.Evaluation
import Constat.EventLog
import Constat.Noninterference

/-!
# RunInsights

`cli/run_insights.py`: with `--all` every registered rule runs, each in a session of its own, and a
rule that fails does not stop the others. The rules share their tables: each deletes and rewrites
its own rows among those of the others, takes the next free ids, and reads what it has stored
before.

* `Alike`       — two stores a rule cannot tell apart: what it reads, and its own rows but for ids.
* `Replaced`    — what a run that returns does to the rows of every rule.
* `Independent` — in any order and whatever fails, a rule ends as if it had run alone.
-/

namespace Constat

open Session (WritesOnly)
open Evaluation (RuleWorld runners sortedRunners)
open Runner RunFailures

namespace RunInsights

/-! ## The command -/

structure Args where
  runAll : Bool
  rule : Option String
  today : Option Date
  periodLabel : String
  tagKey : Option String

/-- argparse refuses the arguments, or the exit code of the command. -/
inductive Exit where
  | usage (message : String)
  | code (n : Nat)
deriving DecidableEq

/-- `run_rule` with the parameters of the command. -/
def callFor (fp : Arith) (world : RuleWorld) (args : Args) (rule : String) : Option Call :=
  if rule = "chargeback" then some (.chargeback {
    now := world.now
    periodLabel := args.periodLabel
    tagKey := args.tagKey
    order := world.order
    accounts := world.accounts
    accounts_perm := world.accounts_perm })
  else ((resourceRules fp).find? (·.name = rule)).map
    (.resource · ⟨world.now, args.today.getD world.today, some defaultScopeMaxAge⟩)

/-- `_run_one`: the session is closed without a commit of its own. -/
def runOne (fp : Arith) (worlds : String → RuleWorld) (args : Args) (t : Store) (rule : String) :
    Store × Bool :=
  match callFor fp (worlds rule) args rule with
  | none => (t, false)
  | some call =>
    let out := runUnder (worlds rule).plan fp (.begin t) call
    (afterCall false out, out.2.isNone)

/-- The rules in turn, and those that failed. -/
def runRules (fp : Arith) (worlds : String → RuleWorld) (args : Args) (t : Store)
    (rules : List String) : Store × List String :=
  rules.foldl (fun st rule =>
    let out := runOne fp worlds args st.1 rule
    (out.1, if out.2 then st.2 else st.2 ++ [rule])) (t, [])

def exitCode (failed : List String) : Nat := if failed.isEmpty then 0 else 2

def main (fp : Arith) (worlds : String → RuleWorld) (args : Args) (t : Store) : Store × Exit :=
  match args.rule with
  | some rule =>
    if rule ∉ sortedRunners then (t, .usage ("argument --rule: invalid choice: " ++ rule))
    else if args.runAll then (t, .usage "--all and --rule are mutually exclusive")
    else
      let out := runRules fp worlds args t [rule]
      (out.1, .code (exitCode out.2))
  | none =>
    if !args.runAll then (t, .usage "choose --all or --rule <name>")
    else
      let out := runRules fp worlds args t sortedRunners
      (out.1, .code (exitCode out.2))

/-! ## What a rule sees of a store -/

/-- The tables the rules read and never write. -/
structure SameEvidence (t t' : Store) : Prop where
  accounts : t'.accounts = t.accounts
  resources : t'.resources = t.resources
  facts : t'.facts = t.facts
  sourceRuns : t'.sourceRuns = t.sourceRuns
  focusCharges : t'.focusCharges = t.focusCharges
  focusChargeTags : t'.focusChargeTags = t.focusChargeTags

namespace SameEvidence

variable {t t' t'' : Store}

theorem trans (h : SameEvidence t t') (h' : SameEvidence t' t'') : SameEvidence t t'' :=
  ⟨h'.accounts.trans h.accounts, h'.resources.trans h.resources, h'.facts.trans h.facts,
    h'.sourceRuns.trans h.sourceRuns, h'.focusCharges.trans h.focusCharges,
    h'.focusChargeTags.trans h.focusChargeTags⟩

theorem of_body {s s' : DbSession} (h : WritesOnly isBody s s') :
    SameEvidence s.working s'.working where
  accounts := h.frame Store.accounts fun w hw t => by cases w <;> first | rfl | cases hw
  resources := h.frame Store.resources fun w hw t => by cases w <;> first | rfl | cases hw
  facts := h.frame Store.facts fun w hw t => by cases w <;> first | rfl | cases hw
  sourceRuns := h.frame Store.sourceRuns fun w hw t => by cases w <;> first | rfl | cases hw
  focusCharges := h.frame Store.focusCharges fun w hw t => by cases w <;> first | rfl | cases hw
  focusChargeTags := h.frame Store.focusChargeTags
    fun w hw t => by cases w <;> first | rfl | cases hw

theorem charges (h : SameEvidence t t') : Chargeback.SameCharges t t' :=
  ⟨h.accounts, h.focusCharges, h.focusChargeTags⟩

end SameEvidence

/-- An event without the id it happened to get and the run that logged it. -/
def unstamped (e : InsightEventRow) : InsightEventRow := { e with id := 0, insightRunId := none }

def ruleEvents (name : String) (t : Store) : List InsightEventRow :=
  (t.insightEvents.rows.filter fun e => e.ruleName = name).map unstamped

/-- The rows the rule has stored are the same but for their ids. -/
structure SameRows (name : String) (t t' : Store) : Prop where
  insights : ruleInsights name t' = ruleInsights name t
  inconclusive : ruleInconclusive name t' = ruleInconclusive name t
  events : ruleEvents name t' = ruleEvents name t

/-- The rule cannot tell the stores apart. -/
structure Alike (name : String) (t t' : Store) : Prop where
  evidence : SameEvidence t t'
  rows : SameRows name t t'

/-! ## The rows of a rule, stage by stage -/

theorem ruleInsights_appended {now : Micros} {t t' : Store} {is : List Insight}
    {incs : List Inconclusive} (h : Appended now t t' is incs) (name : String) :
    ruleInsights name t' = ruleInsights name t ++
      (is.filter fun i => i.ruleName = name).map fun i => insightRow 0 i now := by
  have hnew : ∀ next, ((insightRows next is now).filter fun r => r.ruleName = name).map unnumbered =
      (is.filter fun i => i.ruleName = name).map fun i => insightRow 0 i now := by
    intro next
    rw [insightRows, List.filter_map, List.map_map]
    conv => rhs; rw [← List.zipIdx_map_fst next is, List.filter_map, List.map_map]
    rfl
  rw [ruleInsights, Insights.ofRule, h.insights, List.filter_append, List.map_append, hnew]
  rfl

theorem ruleInconclusive_appended {now : Micros} {t t' : Store} {is : List Insight}
    {incs : List Inconclusive} (h : Appended now t t' is incs) (name : String) :
    ruleInconclusive name t' = ruleInconclusive name t ++
      (incs.filter fun i => i.ruleName = name).map fun i => inconclusiveRow 0 i now := by
  have hnew : ∀ next, ((inconclusiveRows next incs now).filter fun r => r.ruleName = name).map
      unnumberedInconclusive =
      (incs.filter fun i => i.ruleName = name).map fun i => inconclusiveRow 0 i now := by
    intro next
    rw [inconclusiveRows, List.filter_map, List.map_map]
    conv => rhs; rw [← List.zipIdx_map_fst next incs, List.filter_map, List.map_map]
    rfl
  rw [ruleInconclusive, h.inconclusive, List.filter_append, List.map_append, hnew]
  rfl

theorem ruleInsights_deleted (s : DbSession) (name other : String) :
    ruleInsights other (Insights.deleteInsightsForRule s name).working =
      if other = name then [] else ruleInsights other s.working := by
  show List.map unnumbered (List.filter _ (List.filter _ s.working.insights.rows)) = _
  rw [List.filter_filter]
  by_cases h : other = name
  · rw [if_pos h, h]
    have hnone : (s.working.insights.rows.filter fun r =>
        decide (r.ruleName = name) && !decide (r.ruleName = name)) = [] := by simp
    rw [hnone]
    rfl
  · rw [if_neg h, ruleInsights, Insights.ofRule]
    refine congrArg _ (List.filter_congr fun r _ => ?_)
    by_cases hr : r.ruleName = other
    · simp [hr, h]
    · simp [hr]

theorem ruleInconclusive_deleted (s : DbSession) (name other : String) :
    ruleInconclusive other (Insights.deleteInconclusiveForRule s name).working =
      if other = name then [] else ruleInconclusive other s.working := by
  show List.map unnumberedInconclusive
    (List.filter _ (List.filter _ s.working.inconclusive.rows)) = _
  rw [List.filter_filter]
  by_cases h : other = name
  · rw [if_pos h, h]
    have hnone : (s.working.inconclusive.rows.filter fun r =>
        decide (r.ruleName = name) && !decide (r.ruleName = name)) = [] := by simp
    rw [hnone]
    rfl
  · rw [if_neg h, ruleInconclusive]
    refine congrArg _ (List.filter_congr fun r _ => ?_)
    by_cases hr : r.ruleName = other
    · simp [hr, h]
    · simp [hr]

/-- Rewriting the rows of a rule in place. -/
theorem ruleInsights_rewritten {f : InsightRow → Option InsightRow}
    (hf : ∀ r r', f r = some r' → r'.id = r.id ∧ head r' = head r)
    (hids : ∀ r, f (unnumbered r) = (f r).map unnumbered) (s : DbSession) (name other : String) :
    ruleInsights other
        (s.writes (((Insights.ofRule s.working name).filterMap f).map .insight)).working =
      if other = name then (ruleInsights other s.working).map fun r => (f r).getD r
      else ruleInsights other s.working := by
  let g := fun r : InsightRow => if r.ruleName = name then (f r).getD r else r
  have hname : ∀ r, (g r).ruleName = r.ruleName := by
    intro r
    simp only [g]
    split
    · cases hr : f r with
      | none => rfl
      | some r' => exact congrArg (fun h : Head => h.1) (hf r r' hr).2
    · rfl
  have hfilter : ((s.working.insights.rows.map g).filter fun r => r.ruleName = other) =
      (Insights.ofRule s.working other).map g := by
    rw [List.filter_map]
    refine congrArg (List.map g) (List.filter_congr fun r _ => ?_)
    simp only [Function.comp_apply, hname]
  rw [ruleInsights, Insights.ofRule, rows_ofRule_rewrite f hf s name, hfilter, List.map_map]
  by_cases h : other = name
  · rw [if_pos h, ruleInsights, List.map_map]
    refine List.map_congr_left fun r hr => ?_
    have hr' : r.ruleName = name := h ▸ of_decide_eq_true (List.mem_filter.1 hr).2
    simp only [Function.comp_apply, g, if_pos hr', hids]
    cases f r <;> rfl
  · rw [if_neg h, ruleInsights]
    refine List.map_congr_left fun r hr => ?_
    have hr' : r.ruleName ≠ name :=
      fun hr' => h ((of_decide_eq_true (List.mem_filter.1 hr).2).symm.trans hr')
    simp only [Function.comp_apply, g, if_neg hr']

/-! ## The events of a rule -/

/-- The insights of a rule by fingerprint, from its rows. -/
def printed (rows : List InsightRow) : Dict String InsightRow :=
  rows.foldl (fun d r => d.set (InsightEvents.fingerprint r) r) .empty

theorem snapshotRule_unnumbered (t : Store) (name : String) :
    (InsightEvents.snapshotRule t name).mapValues unnumbered = printed (ruleInsights name t) := by
  rw [InsightEvents.snapshotRule, Dict.mapValues_foldl_set, printed, ruleInsights, List.foldl_map]
  rfl

theorem absentFrom_mapValues (d other : Dict String InsightRow) :
    InsightEvents.absentFrom (d.mapValues unnumbered) (other.mapValues unnumbered) =
      (InsightEvents.absentFrom d other).map (Prod.map id unnumbered) := by
  simp only [InsightEvents.absentFrom, Dict.get?_mapValues, Option.isNone_map]
  exact List.filter_map

/-- The event as it is logged, but for its stamps. -/
def logged (fp : Arith) (name : String) (now : Micros) (kind : EventKind)
    (p : String × InsightRow) : InsightEventRow :=
  unstamped (InsightEvents.eventOf fp .empty name p.1 p.2 kind 0 now)

/-- What the difference of the rule's rows before and after a run adds to the log. -/
def difference (fp : Arith) (name : String) (now : Micros) (before after : List InsightRow) :
    List InsightEventRow :=
  (InsightEvents.absentFrom (printed after) (printed before)).map (logged fp name now .appeared) ++
    (InsightEvents.absentFrom (printed before) (printed after)).map
      (logged fp name now .resolved)

theorem ruleEvents_recorded (fp : Arith) (name other : String) (run : Uuid) (now : Micros)
    (kind : EventKind) (ps : List (String × InsightRow)) (s : DbSession) :
    ruleEvents other (ps.foldl (InsightEvents.record fp name run now kind) s).working =
      ruleEvents other s.working ++
        if other = name then ps.map (logged fp name now kind) else [] := by
  induction ps generalizing s with
  | nil => simp
  | cons p ps ih =>
    let e := InsightEvents.eventOf fp s.working name p.1 p.2 kind run now
    have hput : (s.write (.insightEvent e)).working.insightEvents.rows =
        s.working.insightEvents.rows ++ [e] := Table.rows_put_next _ rfl
    have hlogged : unstamped e = logged fp name now kind p := rfl
    have hname : e.ruleName = name := rfl
    rw [List.foldl_cons, ih]
    show ruleEvents other (s.write (.insightEvent e)).working ++ _ = _
    rw [ruleEvents, hput, List.filter_append, List.map_append, List.append_assoc, ruleEvents]
    refine congrArg _ ?_
    by_cases h : other = name
    · simp [h, hname, hlogged]
    · simp [h, hname, Ne.symm h]

/-- The snapshot before the run was taken of `t`. -/
theorem ruleEvents_diffed (fp : Arith) (s : DbSession) (t : Store) (name other : String)
    (run : Uuid) (now : Micros) :
    ruleEvents other (InsightEvents.diffAndRecordEvents fp s name
        (InsightEvents.snapshotRule t name) run now).working =
      ruleEvents other s.working ++
        if other = name then
          difference fp name now (ruleInsights name t) (ruleInsights name s.working)
        else [] := by
  have hlogged : ∀ kind, logged fp name now kind ∘ Prod.map id unnumbered =
      logged fp name now kind := fun _ => rfl
  simp only [InsightEvents.diffAndRecordEvents, ruleEvents_recorded]
  by_cases h : other = name
  · simp only [if_pos h, difference, ← snapshotRule_unnumbered, absentFrom_mapValues,
      List.map_map, hlogged, List.append_assoc]
  · simp [h]

/-! ## What a run emits -/

/-- What is inserted for a resource: all of it, or what came before the evaluation failed. -/
def emittedUnder (plan : Plan) (rule : ResourceRule) (env : RunEnv) (t : Store) (r : Resource) :
    List Insight × List Inconclusive :=
  let out := (emitted t rule env r, undecided t rule env r)
  match plan.evaluation r.id with
  | none => out
  | some failure => (out.1.take failure.inserted,
      out.2.take (failure.inserted - out.1.length))

def yieldedUnder (plan : Plan) (fp : Arith) (env : Chargeback.Env) (t : Store) (account : Uuid) :
    List Insight :=
  match plan.evaluation account with
  | none => Chargeback.emittedFor fp env t account
  | some failure => (Chargeback.emittedFor fp env t account).take failure.inserted

theorem emittedUnder_named {plan : Plan} {rule : ResourceRule} {env : RunEnv} {t : Store}
    {r : Resource} : (∀ i ∈ (emittedUnder plan rule env t r).1, i.ruleName = rule.name) ∧
      ∀ i ∈ (emittedUnder plan rule env t r).2, i.ruleName = rule.name := by
  simp only [emittedUnder]
  split
  · exact ⟨fun i hi => (mem_emitted hi).1, fun i hi => (mem_undecided hi).1⟩
  · exact ⟨fun i hi => (mem_emitted (List.mem_of_mem_take hi)).1,
      fun i hi => (mem_undecided (List.mem_of_mem_take hi)).1⟩

theorem yieldedUnder_named {plan : Plan} {fp : Arith} {env : Chargeback.Env} {t : Store}
    {account : Uuid} : ∀ i ∈ yieldedUnder plan fp env t account, i.ruleName = "chargeback" := by
  have hall : ∀ i ∈ Chargeback.emittedFor fp env t account, i.ruleName = "chargeback" := by
    intro i hi
    rw [Chargeback.emittedFor_eq] at hi
    obtain ⟨agg, _, rfl⟩ := List.mem_map.1 hi
    rfl
  simp only [yieldedUnder]
  split
  · exact hall
  · exact fun i hi => hall i (List.mem_of_mem_take hi)

theorem evaluateIntoUnder_rows {plan : Plan} {rule : ResourceRule} {env : RunEnv} {t : Store}
    {st : Looped LoopState} {r : Resource} (hst : st.result.session = st.session)
    (hruns : st.session.working.sourceRuns = t.sourceRuns) (hbroken : st.broken = none) :
    Appended env.now st.session.working
      (evaluateIntoUnder plan rule env (factsOf t) st r).session.working
      (emittedUnder plan rule env t r).1 (emittedUnder plan rule env t r).2 := by
  cases hplan : plan.evaluation r.id with
  | none =>
    have hrows := (evaluateInto_spec rule env (factsOf t) st.result r).2
    rw [hst, evaluateResource_congr hruns] at hrows
    simp only [evaluateIntoUnder, emittedUnder, hbroken, hplan]
    exact hrows
  | some failure =>
    have hrows := (insertFirst_spec failure.inserted (output (evaluateResource
      st.session.working r rule env (factsOf t r.id))) env.now st.session).2
    simp only [evaluateIntoUnder, emittedUnder, hbroken, hplan]
    rw [evaluateResource_congr hruns] at hrows ⊢
    exact hrows

theorem evaluateAllUnder_rows (plan : Plan) (rule : ResourceRule) (env : RunEnv) (s : DbSession)
    (husable : ∀ r ∈ s.working.resources, (plan.evaluation r.id).bind (·.breaks) = none) :
    Appended env.now s.working (evaluateAllUnder plan rule env s).session.working
      (s.working.resources.rows.flatMap fun r => (emittedUnder plan rule env s.working r).1)
      (s.working.resources.rows.flatMap fun r => (emittedUnder plan rule env s.working r).2) := by
  have hloop : ∀ (rs : List Resource) (st : Looped LoopState),
      (∀ r ∈ rs, (plan.evaluation r.id).bind (·.breaks) = none) →
      st.result.session = st.session → st.session.working.sourceRuns = s.working.sourceRuns →
      st.broken = none → Appended env.now st.session.working
        (rs.foldl (evaluateIntoUnder plan rule env (factsOf s.working)) st).session.working
        (rs.flatMap fun r => (emittedUnder plan rule env s.working r).1)
        (rs.flatMap fun r => (emittedUnder plan rule env s.working r).2) := by
    intro rs
    induction rs with
    | nil => exact fun st _ _ _ _ => Appended.refl _ _
    | cons r rs ih =>
      intro st husable hst hruns hbroken
      rw [List.forall_mem_cons] at husable
      obtain ⟨hadds, hst'⟩ := adds_evaluateInto plan rule env st r hst hruns
      have hkept := SameInventory.of_writesOnly (hadds.writes.mono isReport_of_isOutput)
      have hbroken' : (evaluateIntoUnder plan rule env (factsOf s.working) st r).broken = none := by
        simp only [evaluateIntoUnder, hbroken]
        split
        · rfl
        · rename_i failure hfailure
          simpa [hfailure] using husable.1
      exact (evaluateIntoUnder_rows hst hruns hbroken).trans
        (ih _ husable.2 hst' (hkept.sourceRuns.trans hruns) hbroken')
  exact hloop _ ⟨s, ⟨s, 0, 0, []⟩, none⟩ husable rfl rfl rfl

theorem addAccountsUnder_rows (plan : Plan) (fp : Arith) (env : Chargeback.Env) (s : DbSession)
    (husable : ∀ account ∈ Chargeback.accountIds env s.working,
      (plan.evaluation account).bind (·.breaks) = none) :
    Appended env.now s.working (addAccountsUnder plan fp env s).session.working
      ((Chargeback.accountIds env s.working).flatMap (yieldedUnder plan fp env s.working)) [] := by
  have hloop : ∀ (accounts : List Uuid) (st : Looped Chargeback.LoopState),
      (∀ account ∈ accounts, (plan.evaluation account).bind (·.breaks) = none) →
      st.result.session = st.session → Chargeback.SameCharges s.working st.session.working →
      st.broken = none → Appended env.now st.session.working
        (accounts.foldl (addAccountUnder plan fp env) st).session.working
        (accounts.flatMap (yieldedUnder plan fp env s.working)) [] := by
    intro accounts
    induction accounts with
    | nil => exact fun st _ _ _ _ => Appended.refl _ _
    | cons account accounts ih =>
      intro st husable hst hsame hbroken
      rw [List.forall_mem_cons] at husable
      obtain ⟨hadds, hst'⟩ := adds_addAccount plan fp env st account hst
      have hemitted : Chargeback.emittedFor fp env st.session.working account =
          Chargeback.emittedFor fp env s.working account := by
        rw [Chargeback.emittedFor, Chargeback.emittedFor, Chargeback.insightsOf_congr hsame]
      have hrow : Appended env.now st.session.working
          (addAccountUnder plan fp env st account).session.working
          (yieldedUnder plan fp env s.working account) [] := by
        cases hplan : plan.evaluation account with
        | none =>
          have hrows := (Chargeback.addAccount_spec fp env st.result account).2
          rw [hst, hemitted] at hrows
          simp only [addAccountUnder, yieldedUnder, hbroken, hplan]
          exact hrows
        | some failure =>
          have hrows := (insertFirst_spec failure.inserted
            (Chargeback.emittedFor fp env st.session.working account, []) env.now st.session).2
          rw [hemitted, List.take_nil] at hrows
          simp only [addAccountUnder, yieldedUnder, hbroken, hplan, hemitted]
          exact hrows
      have hbroken' : (addAccountUnder plan fp env st account).broken = none := by
        simp only [addAccountUnder, hbroken]
        split
        · rfl
        · rename_i failure hfailure
          simpa [hfailure] using husable.1
      have hkept := Chargeback.SameCharges.of_writesOnly hadds.writes
      have hsame' : Chargeback.SameCharges s.working
          (addAccountUnder plan fp env st account).session.working :=
        ⟨hkept.accounts.trans hsame.accounts, hkept.focusCharges.trans hsame.focusCharges,
          hkept.focusChargeTags.trans hsame.focusChargeTags⟩
      exact hrow.trans (ih _ husable.2 hst' hsame' hbroken')
  exact hloop _ ⟨s, ⟨s, 0, []⟩, none⟩ husable rfl ⟨rfl, rfl, rfl⟩ rfl

/-! ## What a run leaves -/

def clockOf : Call → Micros
  | .resource _ env => env.now
  | .chargeback env => env.now

/-- The rows of its rule after a run that returns, but for their ids. -/
def insightsLeft (plan : Plan) (fp : Arith) (t : Store) : Call → List InsightRow
  | .resource rule env =>
    (t.resources.rows.flatMap fun r => (emittedUnder plan rule env t r).1).map
      fun i => finishedRow fp rule.name t (insightRow 0 i env.now)
  | .chargeback env =>
    ((Chargeback.accountIds env t).flatMap (yieldedUnder plan fp env t)).map
      fun i => Chargeback.ackedRow t (insightRow 0 i env.now)

/-- A chargeback run deletes no inconclusive rows and inserts none. -/
def inconclusiveLeft (plan : Plan) (t : Store) : Call → List InconclusiveRow
  | .resource rule env =>
    (t.resources.rows.flatMap fun r => (emittedUnder plan rule env t r).2).map
      fun i => inconclusiveRow 0 i env.now
  | .chargeback _ => ruleInconclusive "chargeback" t

/-- A run that returns replaces the rows of its rule and logs the difference; the rows of the other
rules are as they were. -/
structure Replaced (plan : Plan) (fp : Arith) (call : Call) (t t' : Store) : Prop where
  evidence : SameEvidence t t'
  insights : ∀ name, ruleInsights name t' =
    if name = EventLog.ruleOf call then insightsLeft plan fp t call else ruleInsights name t
  inconclusive : ∀ name, ruleInconclusive name t' =
    if name = EventLog.ruleOf call then inconclusiveLeft plan t call else ruleInconclusive name t
  events : ∀ name, ruleEvents name t' = ruleEvents name t ++
    if name = EventLog.ruleOf call then difference fp name (clockOf call) (ruleInsights name t)
      (insightsLeft plan fp t call) else []

theorem contextualized_same {t t' : Store} (h : SameEvidence t t') (fp : Arith) (name : String)
    (r : InsightRow) :
    Reconcile.contextualized fp t' name r = Reconcile.contextualized fp t name r := by
  simp only [Reconcile.contextualized, Reconcile.latestPeriodLines, h.resources, h.focusCharges]

theorem ruleInsights_congr {t t' : Store} (h : t'.insights = t.insights) (name : String) :
    ruleInsights name t' = ruleInsights name t := by
  rw [ruleInsights, ruleInsights, Insights.ofRule, Insights.ofRule, h]

theorem ruleInconclusive_congr {t t' : Store} (h : t'.inconclusive = t.inconclusive)
    (name : String) : ruleInconclusive name t' = ruleInconclusive name t := by
  rw [ruleInconclusive, ruleInconclusive, h]

theorem ruleEvents_congr {t t' : Store} (h : t'.insightEvents = t.insightEvents) (name : String) :
    ruleEvents name t' = ruleEvents name t := by
  rw [ruleEvents, ruleEvents, h]

theorem filter_named {α : Type} {l : List α} {nameOf : α → String} {rule : String}
    (h : ∀ i ∈ l, nameOf i = rule) (name : String) :
    (l.filter fun i => nameOf i = name) = if name = rule then l else [] := by
  by_cases hname : name = rule
  · rw [if_pos hname]
    exact List.filter_eq_self.2 fun i hi => decide_eq_true ((h i hi).trans hname.symm)
  · rw [if_neg hname]
    exact List.filter_eq_nil_iff.2 fun i hi hi' =>
      hname ((of_decide_eq_true hi').symm.trans (h i hi))

/-- Contextualizing and carrying the acknowledgements over. -/
theorem ruleInsights_finished (fp : Arith) (rule : String) {t : Store} {s : DbSession}
    (h : SameEvidence t s.working) (name : String) :
    ruleInsights name (Insights.applyAcksToRule (Reconcile.reconcileWithFocus fp s rule) rule
        (Insights.snapshotAcks t rule)).working =
      if name = rule then (ruleInsights name s.working).map (finishedRow fp rule t)
      else ruleInsights name s.working := by
  have hacks := ruleInsights_rewritten (fun r r' => carried_row)
    (carried_unnumbered (Insights.snapshotAcks t rule)) (Reconcile.reconcileWithFocus fp s rule)
    rule name
  have hfocus := ruleInsights_rewritten (fun r r' => contextualized_row)
    (contextualized_unnumbered fp s.working rule) s rule name
  refine hacks.trans ?_
  by_cases hname : name = rule
  · rw [if_pos hname, if_pos hname]
    refine (congrArg _ (hfocus.trans (if_pos hname))).trans ?_
    rw [List.map_map]
    refine List.map_congr_left fun r _ => ?_
    simp only [Function.comp_apply, finishedRow, contextualized_same h]
  · rw [if_neg hname, if_neg hname]
    exact hfocus.trans (if_neg hname)

/-- The difference is logged last. -/
theorem replaced_of_logged {plan : Plan} {fp : Arith} (call : Call) {t : Store} {s : DbSession}
    (run : Uuid) (hsame : SameEvidence t s.working)
    (hinsights : ∀ name, ruleInsights name s.working =
      if name = EventLog.ruleOf call then insightsLeft plan fp t call else ruleInsights name t)
    (hinconclusive : ∀ name, ruleInconclusive name s.working =
      if name = EventLog.ruleOf call then inconclusiveLeft plan t call
      else ruleInconclusive name t)
    (hevents : s.working.insightEvents = t.insightEvents) :
    Replaced plan fp call t (InsightEvents.diffAndRecordEvents fp s (EventLog.ruleOf call)
      (InsightEvents.snapshotRule t (EventLog.ruleOf call)) run (clockOf call)).working := by
  obtain ⟨hdiff, _⟩ := diffAndRecordEvents_spec fp s (EventLog.ruleOf call)
    (InsightEvents.snapshotRule t (EventLog.ruleOf call)) run (clockOf call)
  refine ⟨hsame.trans (SameEvidence.of_body (hdiff.mono isBody_of_isEvent)), fun name => ?_,
    fun name => ?_, fun name => ?_⟩
  · rw [← hinsights]
    exact ruleInsights_congr (hdiff.frame Store.insights
      fun w hw t => by cases w <;> first | rfl | cases hw) name
  · rw [← hinconclusive]
    exact ruleInconclusive_congr (hdiff.frame Store.inconclusive
      fun w hw t => by cases w <;> first | rfl | cases hw) name
  · rw [ruleEvents_diffed, ruleEvents_congr hevents, hinsights, if_pos rfl]
    by_cases hname : name = EventLog.ruleOf call
    · simp [hname]
    · simp [hname]

/-- The stages of a run of `rule` on `s`, its row committed. -/
theorem replaced_resource (plan : Plan) (fp : Arith) (rule : ResourceRule) (env : RunEnv)
    {s : DbSession} (run : Uuid)
    (husable : ∀ r ∈ s.working.resources, (plan.evaluation r.id).bind (·.breaks) = none) :
    Replaced plan fp (.resource rule env) s.working
      (InsightEvents.diffAndRecordEvents fp (Insights.applyAcksToRule (Reconcile.reconcileWithFocus
        fp (evaluateAllUnder plan rule env (clearOutput s rule)).session rule.name) rule.name
        (Insights.snapshotAcks s.working rule.name)) rule.name
        (InsightEvents.snapshotRule s.working rule.name) run env.now).working := by
  have hclear : WritesOnly isOutput s (clearOutput s rule) :=
    (WritesOnly.write s rfl).trans (WritesOnly.write _ rfl)
  have hcleared := SameInventory.of_writesOnly (hclear.mono isReport_of_isOutput)
  have hloop := (adds_evaluateAll plan rule env (clearOutput s rule)).writes
  have hrows := evaluateAllUnder_rows plan rule env (clearOutput s rule)
    (by rwa [hcleared.resources])
  have hemitted : ∀ r, emittedUnder plan rule env (clearOutput s rule).working r =
      emittedUnder plan rule env s.working r := by
    intro r
    rw [emittedUnder, emittedUnder, (emitted_congr hcleared), (undecided_congr hcleared)]
  simp only [hemitted, hcleared.resources] at hrows
  have hinsights : ∀ name, ruleInsights name (clearOutput s rule).working =
      if name = rule.name then [] else ruleInsights name s.working :=
    fun name => ruleInsights_deleted s rule.name name
  have hinconclusive : ∀ name, ruleInconclusive name (clearOutput s rule).working =
      if name = rule.name then [] else ruleInconclusive name s.working :=
    fun name => ruleInconclusive_deleted (Insights.deleteInsightsForRule s rule.name) rule.name name
  generalize clearOutput s rule = s₂ at *
  generalize (evaluateAllUnder plan rule env s₂).session = s₃ at *
  have hsame := SameEvidence.of_body ((hclear.trans hloop).mono isBody_of_isOutput)
  have hfinish : WritesOnly isInsight s₃ (Insights.applyAcksToRule
      (Reconcile.reconcileWithFocus fp s₃ rule.name) rule.name
      (Insights.snapshotAcks s.working rule.name)) :=
    (writesOnly_insights _ _).trans (writesOnly_insights _ _)
  have hfinished := ruleInsights_finished fp rule.name hsame
  generalize Insights.applyAcksToRule (Reconcile.reconcileWithFocus fp s₃ rule.name) rule.name
    (Insights.snapshotAcks s.working rule.name) = s₄ at *
  refine replaced_of_logged (.resource rule env) run ?evidence ?insights ?inconclusive ?events
  case evidence =>
    exact hsame.trans (SameEvidence.of_body (hfinish.mono fun w hw =>
      isBody_of_isOutput w (isOutput_of_isInsight w hw)))
  case insights =>
    intro name
    have hnew := ruleInsights_appended hrows name
    rw [hinsights, filter_named fun i hi => ?named] at hnew
    case named =>
      obtain ⟨r, _, hi⟩ := List.mem_flatMap.1 hi
      exact emittedUnder_named.1 i hi
    rw [hfinished, hnew]
    by_cases hname : name = rule.name
    · simp [hname, EventLog.ruleOf, insightsLeft]
    · simp [hname, EventLog.ruleOf]
  case inconclusive =>
    intro name
    have hkept : s₄.working.inconclusive = s₃.working.inconclusive :=
      hfinish.frame Store.inconclusive fun w hw t => by cases w <;> first | rfl | cases hw
    rw [ruleInconclusive_congr hkept, ruleInconclusive_appended hrows, hinconclusive,
      filter_named fun i hi => ?named]
    case named =>
      obtain ⟨r, _, hi⟩ := List.mem_flatMap.1 hi
      exact emittedUnder_named.2 i hi
    by_cases hname : name = rule.name
    · simp [hname, EventLog.ruleOf, inconclusiveLeft]
    · simp [hname, EventLog.ruleOf]
  case events =>
    exact (events_of_writesOnly (hfinish.mono isOutput_of_isInsight)).trans
      (events_of_writesOnly (hclear.trans hloop))

/-- The stages of a chargeback run on `s`, its row committed; the row gets its status among them. -/
theorem replaced_chargeback (plan : Plan) (fp : Arith) (env : Chargeback.Env) {s : DbSession}
    (run : Uuid) (row : InsightRunRow)
    (husable : ∀ account ∈ Chargeback.accountIds env s.working,
      (plan.evaluation account).bind (·.breaks) = none) :
    Replaced plan fp (.chargeback env) s.working
      (InsightEvents.diffAndRecordEvents fp (Insights.applyAcksToRule ((addAccountsUnder plan fp env
        (Insights.deleteInsightsForRule s "chargeback")).session.write (.insightRun row))
        "chargeback" (Insights.snapshotAcks s.working "chargeback")) "chargeback"
        (InsightEvents.snapshotRule s.working "chargeback") run env.now).working := by
  have hclear : WritesOnly isOutput s (Insights.deleteInsightsForRule s "chargeback") :=
    WritesOnly.write s rfl
  have hcleared : Chargeback.SameCharges s.working
      (Insights.deleteInsightsForRule s "chargeback").working := ⟨rfl, rfl, rfl⟩
  have hloop := (adds_addAccounts plan fp env (Insights.deleteInsightsForRule s "chargeback")).writes
  have hrows := addAccountsUnder_rows plan fp env (Insights.deleteInsightsForRule s "chargeback")
    husable
  have hyielded : ∀ account, yieldedUnder plan fp env
      (Insights.deleteInsightsForRule s "chargeback").working account =
      yieldedUnder plan fp env s.working account := by
    intro account
    simp only [yieldedUnder, Chargeback.emittedFor, Chargeback.insightsOf_congr hcleared]
  have hids : Chargeback.accountIds env (Insights.deleteInsightsForRule s "chargeback").working =
      Chargeback.accountIds env s.working := rfl
  simp only [funext hyielded, hids] at hrows
  have hinsights := ruleInsights_deleted s "chargeback"
  have hinconclusive : ∀ name, ruleInconclusive name
      (Insights.deleteInsightsForRule s "chargeback").working = ruleInconclusive name s.working :=
    fun _ => rfl
  generalize Insights.deleteInsightsForRule s "chargeback" = s₂ at *
  generalize (addAccountsUnder plan fp env s₂).session = s₃ at *
  have hsame := SameEvidence.of_body ((hclear.trans hloop).mono isBody_of_isOutput)
  have hfinish : WritesOnly isInsight (s₃.write (.insightRun row)) (Insights.applyAcksToRule
      (s₃.write (.insightRun row)) "chargeback" (Insights.snapshotAcks s.working "chargeback")) :=
    writesOnly_insights _ _
  have hcarried := ruleInsights_rewritten (fun r r' => carried_row)
    (carried_unnumbered (Insights.snapshotAcks s.working "chargeback"))
    (s₃.write (.insightRun row)) "chargeback"
  replace hcarried : ∀ name, ruleInsights name (Insights.applyAcksToRule
      (s₃.write (.insightRun row)) "chargeback"
      (Insights.snapshotAcks s.working "chargeback")).working =
      if name = "chargeback" then (ruleInsights name s₃.working).map (Chargeback.ackedRow s.working)
      else ruleInsights name s₃.working := hcarried
  generalize Insights.applyAcksToRule (s₃.write (.insightRun row)) "chargeback"
    (Insights.snapshotAcks s.working "chargeback") = s₄ at *
  refine replaced_of_logged (.chargeback env) run ?evidence ?insights ?inconclusive ?events
  case evidence =>
    have hrow : SameEvidence s₃.working (s₃.write (.insightRun row)).working :=
      ⟨rfl, rfl, rfl, rfl, rfl, rfl⟩
    exact (hsame.trans hrow).trans (SameEvidence.of_body (hfinish.mono fun w hw =>
      isBody_of_isOutput w (isOutput_of_isInsight w hw)))
  case insights =>
    intro name
    have hnew := ruleInsights_appended hrows name
    rw [hinsights, filter_named fun i hi => ?named] at hnew
    case named =>
      obtain ⟨account, _, hi⟩ := List.mem_flatMap.1 hi
      exact yieldedUnder_named i hi
    rw [hcarried, hnew]
    by_cases hname : name = "chargeback"
    · simp [hname, EventLog.ruleOf, insightsLeft]
    · simp [hname, EventLog.ruleOf]
  case inconclusive =>
    intro name
    have hkept : s₄.working.inconclusive = s₃.working.inconclusive :=
      hfinish.frame Store.inconclusive fun w hw t => by cases w <;> first | rfl | cases hw
    rw [ruleInconclusive_congr hkept, ruleInconclusive_appended hrows, hinconclusive]
    by_cases hname : name = "chargeback"
    · simp [hname, EventLog.ruleOf, inconclusiveLeft]
    · simp [hname, EventLog.ruleOf]
  case events =>
    have hbefore := events_of_writesOnly (hclear.trans hloop)
    exact (events_of_writesOnly (hfinish.mono isOutput_of_isInsight)).trans hbefore

/-! ## One rule -/

section

variable {plan : Plan} {fp : Arith} {call : Call} {t t' t'' : Store} {name : String}

theorem Alike.refl (name : String) (t : Store) : Alike name t t :=
  ⟨⟨rfl, rfl, rfl, rfl, rfl, rfl⟩, ⟨rfl, rfl, rfl⟩⟩

theorem Alike.trans (h : Alike name t t') (h' : Alike name t' t'') : Alike name t t'' :=
  ⟨h.evidence.trans h'.evidence, h'.rows.insights.trans h.rows.insights,
    h'.rows.inconclusive.trans h.rows.inconclusive, h'.rows.events.trans h.rows.events⟩

theorem Alike.symm (h : Alike name t t') : Alike name t' t :=
  ⟨⟨h.evidence.accounts.symm, h.evidence.resources.symm, h.evidence.facts.symm,
    h.evidence.sourceRuns.symm, h.evidence.focusCharges.symm, h.evidence.focusChargeTags.symm⟩,
    ⟨h.rows.insights.symm, h.rows.inconclusive.symm, h.rows.events.symm⟩⟩

/-- The row of a run is not among what the rules see. -/
theorem alike_noted (name : String) (t : Store) (row : InsightRunRow) :
    Alike name t (applyWrite t (.insightRun row)) :=
  ⟨⟨rfl, rfl, rfl, rfl, rfl, rfl⟩, ⟨rfl, rfl, rfl⟩⟩

theorem snapshotAcks_unnumbered (t : Store) (name : String) :
    Insights.snapshotAcks t name = (ruleInsights name t).foldl (fun d r =>
      match Insights.ackOf r with
      | some ack => d.set (Insights.ackSnapshotKey r) ack
      | none => d) .empty := by
  rw [Insights.snapshotAcks, ruleInsights, List.foldl_map]
  rfl

theorem SameEvidence.emittedUnder (h : SameEvidence t t') (plan : Plan) (rule : ResourceRule)
    (env : RunEnv) (r : Resource) :
    emittedUnder plan rule env t' r = emittedUnder plan rule env t r := by
  have hfacts : factsOf t' r.id = factsOf t r.id := by rw [factsOf, factsOf, h.facts]
  simp only [RunInsights.emittedUnder, emitted, undecided, evaluateResource_congr h.sourceRuns,
    hfacts]

theorem SameEvidence.yieldedUnder (h : SameEvidence t t') (plan : Plan) (fp : Arith)
    (env : Chargeback.Env) (account : Uuid) :
    yieldedUnder plan fp env t' account = yieldedUnder plan fp env t account := by
  simp only [RunInsights.yieldedUnder, Chargeback.emittedFor,
    Chargeback.insightsOf_congr h.charges]

theorem SameEvidence.accountIds (h : SameEvidence t t') (env : Chargeback.Env) :
    Chargeback.accountIds env t' = Chargeback.accountIds env t := by
  rw [Chargeback.accountIds, Chargeback.accountIds, h.focusCharges]

theorem SameEvidence.subjects (h : SameEvidence t t') (call : Call) :
    subjects t' call = subjects t call := by
  cases call with
  | resource rule env => rw [RunFailures.subjects, RunFailures.subjects, h.resources]
  | chargeback env => exact h.accountIds env

theorem Alike.insightsLeft (h : Alike (EventLog.ruleOf call) t t') (plan : Plan) (fp : Arith) :
    insightsLeft plan fp t' call = insightsLeft plan fp t call := by
  have hacks : Insights.snapshotAcks t' (EventLog.ruleOf call) =
      Insights.snapshotAcks t (EventLog.ruleOf call) := by
    rw [snapshotAcks_unnumbered, snapshotAcks_unnumbered, h.rows.insights]
  cases call with
  | resource rule env =>
    simp only [EventLog.ruleOf] at hacks
    simp only [RunInsights.insightsLeft, h.evidence.resources, h.evidence.emittedUnder,
      finishedRow, contextualized_same h.evidence, hacks]
  | chargeback env =>
    simp only [EventLog.ruleOf] at hacks
    have hyielded := funext (h.evidence.yieldedUnder plan fp env)
    simp only [RunInsights.insightsLeft, h.evidence.accountIds, hyielded, Chargeback.ackedRow,
      hacks]

theorem Alike.inconclusiveLeft (h : Alike (EventLog.ruleOf call) t t') (plan : Plan) :
    inconclusiveLeft plan t' call = inconclusiveLeft plan t call := by
  cases call with
  | resource rule env =>
    simp only [RunInsights.inconclusiveLeft, h.evidence.resources, h.evidence.emittedUnder]
  | chargeback env => exact h.rows.inconclusive

namespace Replaced

theorem before (h : Replaced plan fp call t' t'') (hsame : ∀ name, Alike name t t') :
    Replaced plan fp call t t'' := by
  have hrule := hsame (EventLog.ruleOf call)
  refine ⟨hrule.evidence.trans h.evidence, fun name => ?_, fun name => ?_, fun name => ?_⟩
  · rw [h.insights, hrule.insightsLeft, (hsame name).rows.insights]
  · rw [h.inconclusive, hrule.inconclusiveLeft, (hsame name).rows.inconclusive]
  · rw [h.events, hrule.insightsLeft, (hsame name).rows.events, (hsame name).rows.insights]

theorem after (h : Replaced plan fp call t t') (hsame : ∀ name, Alike name t' t'') :
    Replaced plan fp call t t'' := by
  refine ⟨h.evidence.trans (hsame "").evidence, fun name => ?_, fun name => ?_, fun name => ?_⟩
  · rw [(hsame name).rows.insights, h.insights]
  · rw [(hsame name).rows.inconclusive, h.inconclusive]
  · rw [(hsame name).rows.events, h.events]

/-- Other rules see nothing of the run. -/
theorem others (h : Replaced plan fp call t t') (hname : name ≠ EventLog.ruleOf call) :
    Alike name t t' := by
  refine ⟨h.evidence, ?_, ?_, ?_⟩
  · rw [h.insights, if_neg hname]
  · rw [h.inconclusive, if_neg hname]
  · rw [h.events, if_neg hname, List.append_nil]

/-- On stores its rule cannot tell apart a run leaves stores its rule cannot tell apart. -/
theorem same {u u' : Store} (h : Replaced plan fp call t u) (h' : Replaced plan fp call t' u')
    (hsame : Alike (EventLog.ruleOf call) t t') : Alike (EventLog.ruleOf call) u u' := by
  refine ⟨⟨?_, ?_, ?_, ?_, ?_, ?_⟩, ?_, ?_, ?_⟩
  · rw [h'.evidence.accounts, hsame.evidence.accounts, h.evidence.accounts]
  · rw [h'.evidence.resources, hsame.evidence.resources, h.evidence.resources]
  · rw [h'.evidence.facts, hsame.evidence.facts, h.evidence.facts]
  · rw [h'.evidence.sourceRuns, hsame.evidence.sourceRuns, h.evidence.sourceRuns]
  · rw [h'.evidence.focusCharges, hsame.evidence.focusCharges, h.evidence.focusCharges]
  · rw [h'.evidence.focusChargeTags, hsame.evidence.focusChargeTags, h.evidence.focusChargeTags]
  · rw [h'.insights, h.insights, if_pos rfl, if_pos rfl, hsame.insightsLeft]
  · rw [h'.inconclusive, h.inconclusive, if_pos rfl, if_pos rfl, hsame.inconclusiveLeft]
  · rw [h'.events, h.events, if_pos rfl, if_pos rfl, hsame.insightsLeft, hsame.rows.events,
      hsame.rows.insights]

end Replaced

theorem replaced_of_survives {α β : Type} {before : List Stage} {loop : DbSession → Looped α}
    {after : Looped α → List Stage} {last : Looped α → DbSession → DbSession} {s : DbSession}
    {f : α → β} (h : Survives plan before loop after s)
    (hreplaced : let looped := loopAfter before loop s
      Replaced plan fp call t
        (last looped ((after looped).foldl (fun s st => st.2 s) looped.session)).working) :
    raised ((conduct plan before loop after last s).2.map f) = none ∧
      Replaced plan fp call t (afterCall false ((conduct plan before loop after last s).1,
        raised ((conduct plan before loop after last s).2.map f))) := by
  have hconduct := conduct_of_survives last h
  rw [hconduct]
  exact ⟨rfl, hreplaced⟩

theorem replaced_run (hbegin : plan.stage .begin = none) (hrun : Undisturbed plan call t) :
    (runUnder plan fp (.begin t) call).2 = none ∧
      Replaced plan fp call t (afterCall false (runUnder plan fp (.begin t) call)) := by
  cases call with
  | resource rule env =>
    let s₁ := beginRun (.begin t) rule env
    have hbroken : (loopAfter (resourceBefore rule) (evaluateAllUnder plan rule env) s₁).broken =
        none ↔ ∀ id ∈ subjects t (.resource rule env),
          (plan.evaluation id).bind (·.breaks) = none := by
      rw [subjects, List.forall_mem_map]
      exact evaluateAllUnder_broken plan rule env _
    have husable : ∀ r ∈ s₁.working.resources, (plan.evaluation r.id).bind (·.breaks) = none :=
      fun r hr => hrun.2 r.id (List.mem_map_of_mem hr)
    have hreplaced := (replaced_resource plan fp rule env t.insightRuns.next husable).before
      fun name => alike_noted name t (newInsightRun t rule.name env.now)
    simp only [runUnder, runResourceRuleUnder, hbegin]
    exact replaced_of_survives ((survives_iff rfl hbroken).2 hrun)
      (hreplaced.after fun name => alike_noted name _ _)
  | chargeback env =>
    let run := newInsightRun t "chargeback" env.now
    let s₁ : DbSession := ((Session.begin t).write (.insightRun run)).commit
    let looped := loopAfter chargebackBefore (addAccountsUnder plan fp env) s₁
    have hbroken : looped.broken = none ↔ ∀ id ∈ subjects t (.chargeback env),
        (plan.evaluation id).bind (·.breaks) = none := addAccountsUnder_broken plan fp env _
    have hreplaced := (replaced_chargeback plan fp env run.id (finishedRun run
      (Chargeback.accountIds env t).length looped.result.insightsEmitted looped.result.errors
      env.now) (s := s₁) hrun.2).before fun name => alike_noted name t run
    simp only [runUnder, runChargebackUnder, hbegin]
    refine replaced_of_survives ((survives_iff rfl hbroken).2 hrun) (hreplaced.after ?_)
    exact fun name => ⟨⟨rfl, rfl, rfl, rfl, rfl, rfl⟩, ⟨rfl, rfl, rfl⟩⟩

/-- A call returns and replaces the rows of its rule exactly when nothing disturbs it; when it raises,
no rule sees anything of it. -/
theorem runUnder_cases (plan : Plan) (fp : Arith) (t : Store) (call : Call) :
    ((plan.stage .begin = none ∧ Undisturbed plan call t) ∧
        (runUnder plan fp (.begin t) call).2 = none ∧
        Replaced plan fp call t (afterCall false (runUnder plan fp (.begin t) call))) ∨
      (¬ (plan.stage .begin = none ∧ Undisturbed plan call t) ∧
        (runUnder plan fp (.begin t) call).2 ≠ none ∧
        ∀ name, Alike name t (afterCall false (runUnder plan fp (.begin t) call))) := by
  by_cases h : plan.stage .begin = none ∧ Undisturbed plan call t
  · exact .inl ⟨h, replaced_run h.1 h.2⟩
  · refine .inr ⟨h, ?_⟩
    cases hbegin : plan.stage .begin with
    | some failure =>
      have hout : runUnder plan fp (.begin t) call =
          ((Session.begin t).writes failure.writes, some failure.error) := by
        cases call <;>
          simp only [runUnder, runResourceRuleUnder, runChargebackUnder, hbegin, raised]
      rw [hout]
      refine ⟨Option.some_ne_none _, fun name => ?_⟩
      have hstore : afterCall false ((Session.begin t).writes failure.writes,
          some failure.error) = t := Session.close_writes_begin t failure.writes
      rw [hstore]
      exact Alike.refl name t
    | none =>
      obtain ⟨run, hends⟩ : ∃ run : InsightRunRow,
          Ends t run (Undisturbed plan call t) (runUnder plan fp (.begin t) call) := by
        cases call with
        | resource rule env => exact ⟨_, ends_resource hbegin⟩
        | chargeback env => exact ⟨_, ends_chargeback hbegin⟩
      rcases hends with ⟨hrun, _⟩ | ⟨_, e, hraised, hcommitted⟩
      · exact absurd ⟨hbegin, hrun⟩ h
      · have hstore : afterCall false (runUnder plan fp (.begin t) call) =
            applyWrite t (.insightRun run) := by
          simp only [afterCall, hraised, Session.close, Session.rollback_committed, hcommitted]
        rw [hstore, hraised]
        exact ⟨Option.some_ne_none _, fun name => alike_noted name t run⟩

end

/-! ## The rules in turn -/

section

variable {fp : Arith} {worlds : String → RuleWorld} {args : Args} {t t' : Store}
  {rule name : String}

theorem ruleOf_callFor {world : RuleWorld} {call : Call}
    (h : callFor fp world args rule = some call) : EventLog.ruleOf call = rule := by
  unfold callFor at h
  split at h
  · rename_i hrule
    cases h
    exact hrule.symm
  · obtain ⟨r, hr, rfl⟩ := Option.map_eq_some_iff.1 h
    have hname := List.find?_some hr
    exact of_decide_eq_true hname

theorem runOne_others (hname : name ≠ rule) :
    Alike name t (runOne fp worlds args t rule).1 := by
  unfold runOne
  cases hcall : callFor fp (worlds rule) args rule with
  | none => exact Alike.refl name t
  | some call =>
    rcases runUnder_cases (worlds rule).plan fp t call with ⟨_, _, hreplaced⟩ | ⟨_, _, hsame⟩
    · exact hreplaced.others (ruleOf_callFor hcall ▸ hname)
    · exact hsame name

theorem runOne_same (h : Alike rule t t') :
    (runOne fp worlds args t' rule).2 = (runOne fp worlds args t rule).2 ∧
      Alike rule (runOne fp worlds args t rule).1 (runOne fp worlds args t' rule).1 := by
  unfold runOne
  cases hcall : callFor fp (worlds rule) args rule with
  | none => exact ⟨rfl, h⟩
  | some call =>
    have hrule := ruleOf_callFor hcall
    have hrun : Undisturbed (worlds rule).plan call t' ↔ Undisturbed (worlds rule).plan call t := by
      rw [Undisturbed, Undisturbed, h.evidence.subjects]
    rcases runUnder_cases (worlds rule).plan fp t call with
      ⟨hsmooth, hreturned, hreplaced⟩ | ⟨hrough, hraised, hsame⟩ <;>
    rcases runUnder_cases (worlds rule).plan fp t' call with
      ⟨hsmooth', hreturned', hreplaced'⟩ | ⟨hrough', hraised', hsame'⟩
    · refine ⟨?_, ?_⟩
      · simp only [hreturned, hreturned']
      · have hleft := hreplaced.same hreplaced' (hrule ▸ h)
        rw [hrule] at hleft
        exact hleft
    · exact absurd ⟨hsmooth.1, hrun.2 hsmooth.2⟩ hrough'
    · exact absurd ⟨hsmooth'.1, hrun.1 hsmooth'.2⟩ hrough
    · refine ⟨?_, ?_⟩
      · simp only [Option.isNone_eq_false_iff.2 (Option.isSome_iff_ne_none.2 hraised),
          Option.isNone_eq_false_iff.2 (Option.isSome_iff_ne_none.2 hraised')]
      · exact ((hsame rule).symm.trans h).trans (hsame' rule)

end

/-- The rules have ended as if each had run alone on `t`: its rows but for ids, and whether it
failed. -/
structure Independent (fp : Arith) (worlds : String → RuleWorld) (args : Args) (t : Store)
    (rules : List String) (out : Store × List String) : Prop where
  own : ∀ rule ∈ rules, SameRows rule (runOne fp worlds args t rule).1 out.1
  others : ∀ name, name ∉ rules → SameRows name t out.1
  evidence : SameEvidence t out.1
  failed : out.2 = rules.filter fun rule => !(runOne fp worlds args t rule).2

/-- A rule in its turn. -/
def turn (fp : Arith) (worlds : String → RuleWorld) (args : Args) (st : Store × List String)
    (rule : String) : Store × List String :=
  let out := runOne fp worlds args st.1 rule
  (out.1, if out.2 then st.2 else st.2 ++ [rule])

theorem SameEvidence.runOne (fp : Arith) (worlds : String → RuleWorld) (args : Args) (t : Store)
    (rule : String) : SameEvidence t (runOne fp worlds args t rule).1 := by
  -- Any name but the rule's sees the same.
  have hother : rule ++ "x" ≠ rule := by
    intro h
    have hlen := congrArg String.length h
    simp at hlen
  exact (runOne_others hother).evidence

theorem turns_independent (fp : Arith) (worlds : String → RuleWorld) (args : Args)
    {rules : List String} (hrules : rules.Nodup) (st : Store × List String) :
    (∀ rule ∈ rules, Alike rule (runOne fp worlds args st.1 rule).1
        (rules.foldl (turn fp worlds args) st).1) ∧
      (∀ name, name ∉ rules → Alike name st.1 (rules.foldl (turn fp worlds args) st).1) ∧
      (rules.foldl (turn fp worlds args) st).2 =
        st.2 ++ rules.filter fun rule => !(runOne fp worlds args st.1 rule).2 := by
  induction rules generalizing st with
  | nil => exact ⟨fun _ h => absurd h List.not_mem_nil, fun _ _ => Alike.refl _ _, by simp⟩
  | cons rule rules ih =>
    obtain ⟨hfresh, hrules⟩ := List.nodup_cons.1 hrules
    obtain ⟨hown, hothers, hfailed⟩ := ih hrules (turn fp worlds args st rule)
    have hturn : ∀ name, name ≠ rule → Alike name st.1 (turn fp worlds args st rule).1 :=
      fun name hname => runOne_others hname
    have hlater : ∀ r ∈ rules, r ≠ rule := fun r hr h => hfresh (h ▸ hr)
    rw [List.foldl_cons]
    refine ⟨?own, ?others, ?failed⟩
    case own =>
      intro r hr
      rcases List.mem_cons.1 hr with rfl | hr
      · exact hothers r hfresh
      · exact (runOne_same (hturn r (hlater r hr))).2.trans (hown r hr)
    case others =>
      intro name hname
      rw [List.mem_cons, not_or] at hname
      exact (hturn name hname.1).trans (hothers name hname.2)
    case failed =>
      have hsame : (rules.filter fun r => !(runOne fp worlds args
          (turn fp worlds args st rule).1 r).2) =
          rules.filter fun r => !(runOne fp worlds args st.1 r).2 :=
        List.filter_congr fun r hr => by rw [(runOne_same (hturn r (hlater r hr))).1]
      rw [hfailed, hsame, List.filter_cons, turn]
      cases (runOne fp worlds args st.1 rule).2 <;> simp

/-- **The rules do not touch each other**: whatever the store, in whatever order the rules run and
whatever fails on the way, every rule of the list ends with the insights, inconclusive records and
events, and the success or failure, it would have had alone, and no other rows are touched. -/
theorem rules_independent (fp : Arith) (worlds : String → RuleWorld) (args : Args) (t : Store)
    {rules : List String} (hrules : rules.Nodup) :
    Independent fp worlds args t rules (runRules fp worlds args t rules) := by
  obtain ⟨hown, hothers, hfailed⟩ := turns_independent fp worlds args hrules (t, [])
  refine ⟨fun rule hrule => (hown rule hrule).rows, fun name hname => (hothers name hname).rows,
    ?_, hfailed⟩
  cases rules with
  | nil => exact (Alike.refl "" t).evidence
  | cons rule rules =>
    exact (SameEvidence.runOne fp worlds args t rule).trans (hown rule List.mem_cons_self).evidence

/-- `mysql_eol` loses its connection before it commits. -/
def dropped (rule : String) : RuleWorld where
  plan := ⟨fun p => if rule = "mysql_eol" ∧ p = .finish then
    some ⟨[], ⟨"OperationalError", "server closed the connection unexpectedly"⟩⟩ else none,
    fun _ => none⟩
  now := History.tenthOfDecember + 3600 * Micros.second
  today := Date.ofYmd 2026 12 10
  order := Focus.insertionOrder
  accounts := id
  accounts_perm := List.Perm.refl

def everyRule : Args := ⟨true, none, none, "all-time", none⟩

/-- The gap of the instance is reported all the same. -/
theorem dropped_rule_apart :
    ((runRules .double dropped everyRule EventLog.scanned sortedRunners).2 = ["mysql_eol"] ∧
      (heads (runRules .double dropped everyRule EventLog.scanned sortedRunners).1).map (·.1) =
        ["rds_eol"]) ∧
    Independent .double dropped everyRule EventLog.scanned sortedRunners
      (runRules .double dropped everyRule EventLog.scanned sortedRunners) := by
  refine ⟨by decide +kernel, rules_independent .double dropped everyRule EventLog.scanned ?_⟩
  decide

/-- The exit code of the scheduled command is 2 exactly when some rule fails, and fails alone. -/
theorem main_all (fp : Arith) (worlds : String → RuleWorld) (args : Args) (t : Store)
    (hall : args.runAll = true) (hrule : args.rule = none) :
    main fp worlds args t = ((runRules fp worlds args t sortedRunners).1,
      .code (if ∃ rule ∈ sortedRunners, (runOne fp worlds args t rule).2 = false then 2 else 0)) := by
  have hsorted : sortedRunners.Nodup := by decide
  have hfailed := (turns_independent fp worlds args hsorted (t, [])).2.2
  simp only [main, hrule, hall, Bool.not_true, Bool.false_eq_true, if_false]
  refine congrArg (fun n => (_, Exit.code n)) ?_
  have hempty : (runRules fp worlds args t sortedRunners).2.isEmpty = true ↔
      ¬ ∃ rule ∈ sortedRunners, (runOne fp worlds args t rule).2 = false := by
    rw [List.isEmpty_iff]
    refine (congrArg (· = []) (hfailed.trans (List.nil_append _))).to_iff.trans ?_
    rw [List.filter_eq_nil_iff]
    simp
  simp only [exitCode, hempty, ite_not]

end RunInsights

end Constat
