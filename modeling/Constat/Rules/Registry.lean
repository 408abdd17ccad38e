import Constat.Rules.Eol
import Constat.Rules.Storage

/-!
# Rules.Registry

`RESOURCE_RULES` and `RULE_SOURCES` of `insights/runner.py`. A `ResourceRule` carries what the
runner relies on: an evaluation speaks about the resource it was given, finds at most one gap, and
never a gap together with a reason for being inconclusive.
-/

namespace Constat

/-- What an evaluation of `id` under the rule `name` may return. -/
structure RuleResult.Sound (name : String) (id : Uuid) (r : RuleResult) : Prop where
  about : ∀ i ∈ r.insights, i.ruleName = name ∧ i.resourceId = some id
  single : r.insights.length ≤ 1
  silent : r.insights ≠ [] → r.inconclusiveReasons = []

namespace RuleResult

theorem sound_noMatch (name : String) (id : Uuid) : noMatch.Sound name id :=
  ⟨fun i hi => (by cases hi), Nat.zero_le 1, fun _ => rfl⟩

theorem sound_inconclusive (name : String) (id : Uuid) (reasons : List String) :
    (inconclusive reasons).Sound name id :=
  ⟨fun i hi => (by cases hi), Nat.zero_le 1, fun h => absurd rfl h⟩

theorem sound_gap {name : String} {id : Uuid} {i : Insight} (hn : i.ruleName = name)
    (hr : i.resourceId = some id) : (gap i).Sound name id := by
  refine ⟨fun j hj => ?_, Nat.le_refl 1, fun _ => rfl⟩
  rw [List.mem_singleton.1 hj]
  exact ⟨hn, hr⟩

end RuleResult

structure ResourceRule where
  name : String
  source : String
  evaluate : Uuid → List Fact → Date → Except PyError RuleResult
  sound : ∀ {id facts today r}, evaluate id facts today = .ok r → r.Sound name id

namespace Eol

theorem makeInsight_sound {fp : Arith} {config : EolRuleConfig} {m : EngineEolMatcher}
    {x : EolSubject} {days : Int} {severity : Severity} {title recommendation : String}
    {r : RuleResult}
    (h : makeInsight fp config m x days severity title recommendation = .ok r) :
    r.Sound config.ruleName x.resourceId := by
  simp only [makeInsight] at h
  split at h
  · cases h
  · cases h
    exact RuleResult.sound_gap rfl rfl

theorem evaluateDates_sound {fp : Arith} {config : EolRuleConfig} {m : EngineEolMatcher}
    {x : EolSubject} {r : RuleResult} (h : evaluateDates fp config m x = .ok r) :
    r.Sound config.ruleName x.resourceId := by
  simp only [evaluateDates] at h
  split at h
  · cases h
  · split at h
    · exact makeInsight_sound h
    · split at h
      · cases h; exact RuleResult.sound_noMatch _ _
      · split at h
        · exact makeInsight_sound h
        · exact makeInsight_sound h

theorem evaluateKnown_sound {fp : Arith} {config : EolRuleConfig} {m : EngineEolMatcher}
    {id : Uuid} {engine version vcpu region : Fact} {current : Date} {catalogVersion : String}
    {r : RuleResult}
    (h : evaluateKnown fp config m id engine version vcpu region current catalogVersion = .ok r) :
    r.Sound config.ruleName id := by
  rw [evaluateKnown] at h
  split at h
  · cases h
  · cases h; exact RuleResult.sound_inconclusive _ _ _
  · split at h
    · split at h
      · cases h; exact RuleResult.sound_inconclusive _ _ _
      · cases h
    · split at h
      · cases h; exact RuleResult.sound_noMatch _ _
      · exact evaluateDates_sound h

theorem evaluateEol_sound {fp : Arith} {config : EolRuleConfig} {catalogVersion : String}
    {id : Uuid} {facts : List Fact} {current : Date} {r : RuleResult}
    (h : evaluateEol fp config catalogVersion id facts current = .ok r) :
    r.Sound config.ruleName id := by
  simp only [evaluateEol] at h
  split at h
  · cases h; exact RuleResult.sound_inconclusive _ _ _
  · split at h
    · cases h; exact RuleResult.sound_noMatch _ _
    · split at h
      · exact evaluateKnown_sound h
      · cases h; exact RuleResult.sound_inconclusive _ _ _

/-- An end-of-life rule as the runner sees it. -/
def rule (fp : Arith) (config : EolRuleConfig) : ResourceRule where
  name := config.ruleName
  source := "aws_rds"
  evaluate := evaluateEol fp config Catalog.awsVersion
  sound := evaluateEol_sound

end Eol

namespace Storage

theorem evaluateStorage_sound {fp : Arith} {config : StorageRuleConfig} {catalogVersion : String}
    {id : Uuid} {facts : List Fact} {current : Date} {r : RuleResult}
    (h : evaluateStorage fp config catalogVersion id facts current = .ok r) :
    r.Sound config.ruleName id := by
  simp only [evaluateStorage] at h
  split at h
  · cases h; exact RuleResult.sound_inconclusive _ _ _
  · split at h
    · cases h; exact RuleResult.sound_inconclusive _ _ _
    · cases h
    · cases h; exact RuleResult.sound_noMatch _ _
    · split at h
      · cases h; exact RuleResult.sound_inconclusive _ _ _
      · cases h
      · cases h; exact RuleResult.sound_noMatch _ _
      · cases h; exact RuleResult.sound_gap rfl rfl

theorem evaluateStopped_sound {fp : Arith} {id : Uuid} {facts : List Fact} {current : Date}
    {r : RuleResult} (h : evaluateStopped fp id facts current = .ok r) :
    r.Sound stoppedRule id := by
  simp only [evaluateStopped] at h
  split at h
  · cases h; exact RuleResult.sound_inconclusive _ _ _
  · split at h
    · cases h; exact RuleResult.sound_noMatch _ _
    · split at h
      · cases h; exact RuleResult.sound_inconclusive _ _ _
      · split at h
        · cases h; exact RuleResult.sound_inconclusive _ _ _
        · split at h
          · cases h; exact RuleResult.sound_inconclusive _ _ _
          · cases h; exact RuleResult.sound_noMatch _ _
          · split at h
            · cases h
            · cases h; exact RuleResult.sound_gap rfl rfl

/-- A storage rule as the runner sees it. -/
def rule (fp : Arith) (config : StorageRuleConfig) : ResourceRule where
  name := config.ruleName
  source := "aws_ec2"
  evaluate := evaluateStorage fp config Catalog.ebsVersion
  sound := evaluateStorage_sound

def stopped (fp : Arith) : ResourceRule where
  name := stoppedRule
  source := "aws_ec2"
  evaluate := evaluateStopped fp
  sound := evaluateStopped_sound

end Storage

def resourceRules (fp : Arith) : List ResourceRule :=
  [Eol.rule fp Eol.rdsEol, Eol.rule fp Eol.mysqlEolConfig, Eol.rule fp Eol.auroraEol,
    Storage.rule fp Storage.ebsGp2ToGp3, Storage.rule fp Storage.ebsUnattached,
    Storage.rule fp Storage.snapshotOrphan, Storage.stopped fp]

end Constat
