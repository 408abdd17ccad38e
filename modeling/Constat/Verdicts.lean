import Constat.Noninterference
import Constat.Rules.Raises

/-!
# Verdicts

What a run leaves of each resource of the rule's own type: an insight, an inconclusive record, or a
no-match the rule decided on. An evaluation that raises leaves none of the three, only a line in the
run's errors. `accounted_iff` says for which fleets no resource disappears so.
-/

namespace Constat

namespace Runner

def HasInsight (ruleName : String) (t : Store) (x : Resource) : Prop :=
  ∃ r ∈ Insights.ofRule t ruleName, r.resourceId = some x.id

def HasRecord (ruleName : String) (t : Store) (x : Resource) : Prop :=
  ∃ row ∈ t.inconclusive, row.ruleName = ruleName ∧ row.resourceId = some x.id

/-- The scope is proven, there are facts, and the rule says from them that there is no gap. -/
def DecidedNoMatch (rule : ResourceRule) (env : RunEnv) (t : Store) (x : Resource) : Prop :=
  isScopeProven t x rule.source env.scopeMaxAge env.now = true ∧ factsOf t x.id ≠ [] ∧
    rule.evaluate x.id (factsOf t x.id) env.today = .ok .noMatch

/-- Exactly one of three. -/
def ExactlyOne (p q r : Prop) : Prop := (p ∧ ¬ q ∧ ¬ r) ∨ (¬ p ∧ q ∧ ¬ r) ∨ (¬ p ∧ ¬ q ∧ r)

/-- Every resource of the rule's own type has one verdict in the store `t'` its run over `t` left. -/
def Accounted (rule : ResourceRule) (env : RunEnv) (t t' : Store) : Prop :=
  ∀ x ∈ t.resources, isOwn rule.name x = true →
    ExactlyOne (HasInsight rule.name t' x) (HasRecord rule.name t' x) (DecidedNoMatch rule env t x)

instance (ruleName : String) (t : Store) (x : Resource) : Decidable (HasInsight ruleName t x) :=
  inferInstanceAs (Decidable (∃ r ∈ Insights.ofRule t ruleName, r.resourceId = some x.id))

instance (ruleName : String) (t : Store) (x : Resource) : Decidable (HasRecord ruleName t x) :=
  inferInstanceAs (Decidable (∃ row ∈ t.inconclusive.rows, row.ruleName = ruleName ∧
    row.resourceId = some x.id))

instance (rule : ResourceRule) (env : RunEnv) (t : Store) (x : Resource) :
    Decidable (DecidedNoMatch rule env t x) :=
  inferInstanceAs (Decidable (_ ∧ _ ∧ _))

instance {p q r : Prop} [Decidable p] [Decidable q] [Decidable r] : Decidable (ExactlyOne p q r) :=
  inferInstanceAs (Decidable (_ ∨ _ ∨ _))

instance (rule : ResourceRule) (env : RunEnv) (t t' : Store) :
    Decidable (Accounted rule env t t') :=
  inferInstanceAs (Decidable (∀ x ∈ t.resources.rows, isOwn rule.name x = true → _))

/-- The runner gets as far as asking the rule. -/
def Asked (rule : ResourceRule) (env : RunEnv) (t : Store) (x : Resource) : Prop :=
  isScopeProven t x rule.source env.scopeMaxAge env.now = true ∧ factsOf t x.id ≠ []

theorem evaluateResource_unasked {t : Store} {rule : ResourceRule} {env : RunEnv} {x : Resource}
    (h : ¬ Asked rule env t x) : ∃ inc,
      evaluateResource t x rule env (factsOf t x.id) = .ok ([], [inc]) := by
  rw [evaluateResource]
  cases hscope : scopeInconclusive t x rule env with
  | some inc => exact ⟨inc, rfl⟩
  | none =>
    have hempty : factsOf t x.id = [] := by
      by_contra hfacts
      exact h ⟨scopeInconclusive_eq_none.1 hscope, hfacts⟩
    rw [hempty]
    exact ⟨_, rfl⟩

theorem evaluateResource_asked {t : Store} {rule : ResourceRule} {env : RunEnv} {x : Resource}
    (h : Asked rule env t x) : evaluateResource t x rule env (factsOf t x.id) =
      (rule.evaluate x.id (factsOf t x.id) env.today).map fun result =>
        (result.insights, if result.isConclusive then [] else [{
          ruleName := rule.name
          resourceId := some x.id
          accountId := some x.accountId
          missingFacts := result.inconclusiveReasons
          reason := some "missing_facts" }]) := by
  have hne : (factsOf t x.id).isEmpty = false := by simpa using h.2
  simp only [evaluateResource, scopeInconclusive_eq_none.2 h.1, hne]
  cases rule.evaluate x.id (factsOf t x.id) env.today with
  | error e => rfl
  | ok result => cases hconclusive : result.isConclusive <;> simp [Except.map, hconclusive]

/-- A resource has one verdict exactly when asking the rule about it does not raise. -/
theorem oneVerdict_iff {fp : Arith} {rule : ResourceRule} {env : RunEnv} {t t' : Store}
    (h : RunEffect fp rule env t t') {x : Resource} (hx : x ∈ t.resources) :
    ExactlyOne (HasInsight rule.name t' x) (HasRecord rule.name t' x)
        (DecidedNoMatch rule env t x) ↔
      (Asked rule env t x → ¬ Raises (rule.evaluate x.id (factsOf t x.id) env.today)) := by
  have hinsight : HasInsight rule.name t' x ↔ ∃ i, i ∈ emitted t rule env x := h.about_iff hx
  have hrecord : HasRecord rule.name t' x ↔ ∃ i, i ∈ undecided t rule env x :=
    h.recordedAbout_iff hx
  rw [hinsight, hrecord, emitted, undecided]
  by_cases hasked : Asked rule env t x
  · rw [evaluateResource_asked hasked]
    have hdecided : DecidedNoMatch rule env t x ↔
        rule.evaluate x.id (factsOf t x.id) env.today = .ok .noMatch :=
      ⟨fun hd => hd.2.2, fun hd => ⟨hasked.1, hasked.2, hd⟩⟩
    rw [hdecided]
    cases hresult : rule.evaluate x.id (factsOf t x.id) env.today with
    | error e => simp [ExactlyOne, hasked, Except.map, output]
    | ok result =>
      have hsound := rule.sound hresult
      rcases result with ⟨insights, reasons⟩
      cases insights with
      | nil =>
        cases reasons with
        | nil => simp [ExactlyOne, Except.map, output, RuleResult.isConclusive, RuleResult.noMatch]
        | cons reason reasons =>
          simp [ExactlyOne, Except.map, output, RuleResult.isConclusive, RuleResult.noMatch]
      | cons i insights =>
        have hreasons : reasons = [] := hsound.silent (List.cons_ne_nil i insights)
        simp [ExactlyOne, Except.map, output, RuleResult.isConclusive, RuleResult.noMatch, hreasons]
  · obtain ⟨inc, hinc⟩ := evaluateResource_unasked hasked
    have hundecided : ¬ DecidedNoMatch rule env t x := fun hd => hasked ⟨hd.1, hd.2.1⟩
    simp [ExactlyOne, hinc, output, hasked, hundecided]

/-- No rule raises on no facts. -/
theorem not_trips_nil (ruleName : String) (today : Date) : ¬ Trips ruleName (indexFacts []) today := by
  have hget : ∀ key, (indexFacts []).get? key = none := fun _ => rfl
  have hknown : ∀ key, (indexFacts []).known key = none := fun _ => rfl
  simp [Trips, Eol.Trips, Storage.Gp2Trips, Storage.UnattachedTrips, Storage.OrphanTrips,
    Storage.StoppedTrips, FactIndex.missing, hknown, hget, Storage.ebsGp2ToGp3,
    Storage.ebsUnattached, Storage.snapshotOrphan]

/-- Every resource of the rule's own type gets one verdict exactly when none in a proven scope has
facts on which the rule raises. -/
theorem accounted_iff {rule : ResourceRule} (hrule : rule ∈ resourceRules .double) (env : RunEnv)
    (t : Store) : Accounted rule env t (ruleStep .double rule env t) ↔
      ∀ x ∈ t.resources, isOwn rule.name x = true →
        isScopeProven t x rule.source env.scopeMaxAge env.now = true →
          ¬ Trips rule.name (indexFacts (factsOf t x.id)) env.today := by
  refine forall_congr' fun x => forall_congr' fun hx => forall_congr' fun _ => ?_
  rw [oneVerdict_iff (ruleStep_effect .double rule env t) hx, raises_iff hrule]
  constructor
  · intro hverdict hproven
    by_cases hfacts : factsOf t x.id = []
    · rw [hfacts]; exact not_trips_nil rule.name env.today
    · exact hverdict ⟨hproven, hfacts⟩
  · intro hfine hasked
    exact hfine hasked.1

/-! ## A superscript in a version -/

/-- A PostgreSQL instance whose version is a digit that is not decimal. -/
def superscriptDb : Raw :=
  [("DBInstanceArn", .str "arn:aws:rds:eu-west-1:123456789012:db:orders"),
    ("Engine", .str "postgres"), ("EngineVersion", .str "1⁴.9"),
    ("DBInstanceClass", .str "db.t3.medium")]

def superscriptSeen : Store :=
  History.step .double .empty (History.rdsScan History.tenthOfDecember [superscriptDb])

theorem superscript_disappears :
    ¬ Accounted History.rdsEolRule anHourLater superscriptSeen
      (ruleStep .double History.rdsEolRule anHourLater superscriptSeen) := by
  decide +kernel

theorem db_accounted :
    Accounted History.rdsEolRule anHourLater dbOnly
      (ruleStep .double History.rdsEolRule anHourLater dbOnly) := by
  have hrule : History.rdsEolRule ∈ resourceRules .double := by
    simp [resourceRules, History.rdsEolRule]
  have hfine : ∀ x ∈ dbOnly.resources.rows, isOwn "rds_eol" x = true →
      isScopeProven dbOnly x "aws_rds" anHourLater.scopeMaxAge anHourLater.now = true →
        ¬ Trips "rds_eol" (indexFacts (factsOf dbOnly x.id)) anHourLater.today := by
    decide +kernel
  exact (accounted_iff hrule anHourLater dbOnly).2 hfine

end Runner

end Constat
