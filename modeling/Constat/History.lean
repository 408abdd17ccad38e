import Constat.Collector
import Constat.Lib.Trace
import Constat.RuleRun

/-!
# History

The store of a tenant over time: collections and rule runs, in any order, each in a session of its
own. A run's own facts (what AWS answers, the date, the freshness window) are part of its event, so
a list of events is one history of the installation.
-/

namespace Constat

/-- `run_resource_rule` in a session of its own. -/
def Runner.ruleStep (fp : Arith) (rule : ResourceRule) (env : RunEnv) (t : Store) : Store :=
  (runResourceRule fp rule env (Session.begin t)).1.close

theorem Runner.ruleStep_effect (fp : Arith) (rule : ResourceRule) (env : RunEnv) (t : Store) :
    RunEffect fp rule env t (ruleStep fp rule env t) := by
  obtain ⟨heffect, _, hpending⟩ := runResourceRule_spec fp rule env (Session.begin t)
  rw [ruleStep, Session.close, ← Session.working_of_pending_nil hpending]
  exact heffect

theorem Runner.ruleStep_rows (fp : Arith) (rule : ResourceRule) (env : RunEnv) (t : Store) :
    RunRows fp rule env t (ruleStep fp rule env t) := by
  obtain ⟨_, hrows, hpending⟩ := runResourceRule_spec fp rule env (Session.begin t)
  rw [ruleStep, Session.close, ← Session.working_of_pending_nil hpending]
  exact hrows

namespace History

inductive Event where
  | collect (target : Collector.TargetAccount) (options : Collector.Options)
      (world : Collector.World)
  | ruleRun (rule : ResourceRule) (env : Runner.RunEnv)

def step (fp : Arith) (t : Store) : Event → Store
  | .collect target options world => Collector.collectStep target options world t
  | .ruleRun rule env => Runner.ruleStep fp rule env t

/-- A property of the rule runs of a history: of the rule, its environment, and the store before
and after. -/
def OfRuns (fp : Arith) (P : ResourceRule → Runner.RunEnv → Store → Store → Prop) (t : Store) :
    Event → Prop
  | .collect _ _ _ => True
  | .ruleRun rule env => P rule env t (Runner.ruleStep fp rule env t)

instance {fp : Arith} {P : ResourceRule → Runner.RunEnv → Store → Store → Prop}
    [∀ rule env t t', Decidable (P rule env t t')] (t : Store) (e : Event) :
    Decidable (OfRuns fp P t e) :=
  match e with
  | .collect _ _ _ => inferInstanceAs (Decidable True)
  | .ruleRun rule env => inferInstanceAs (Decidable (P rule env t (Runner.ruleStep fp rule env t)))

theorem OfRuns.mono {fp : Arith} {P Q : ResourceRule → Runner.RunEnv → Store → Store → Prop}
    (h : ∀ rule env t t', Runner.RunEffect fp rule env t t' → P rule env t t' → Q rule env t t')
    (t : Store) (e : Event) (hp : OfRuns fp P t e) : OfRuns fp Q t e := by
  cases e with
  | collect target options world => exact trivial
  | ruleRun rule env => exact h rule env t _ (Runner.ruleStep_effect fp rule env t) hp

/-- An RDS collection of one region at `at_` that sees `raws`. -/
def rdsScan (at_ : Micros) (raws : List Raw) : Event :=
  .collect
    { awsAccountId := "123456789012", roleArn := none, externalId := none, name := none
      regions := some ["eu-west-1"], resourceTypes := some ["rds"] }
    { dryRun := false, force := false
      maxConsecutiveRegionErrors := Collector.defaultMaxConsecutiveRegionErrors, jobId := none }
    { assumeRole := none
      job := fun _ _ => {
        contended := false
        startedAt := at_
        items := raws.map fun raw => { raw := raw, seenAt := at_ + 1, observedAt := at_ + 2 }
        ending := .completed
        finishedAt := at_ + 3
        retiredAt := at_ + 4 }
      correlatedAt := fun _ => at_ + 5 }

/-- A PostgreSQL 14 instance. -/
def ordersDb : Raw :=
  [("DBInstanceArn", .str "arn:aws:rds:eu-west-1:123456789012:db:orders"),
    ("Engine", .str "postgres"), ("EngineVersion", .str "14.9"),
    ("DBInstanceClass", .str "db.t3.medium")]

/-- 2026-12-10 at 22:00. -/
def tenthOfDecember : Micros := 1796940000 * Micros.second

def rdsEolRule : ResourceRule := Eol.rule .double Eol.rdsEol

end History

end Constat
