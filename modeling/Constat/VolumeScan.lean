import Constat.Correlation
import Constat.History

/-!
# VolumeScan

The rules `snapshot_orphan` and `ec2_stopped_with_storage` after a collection that did not see a
region's volumes. They rest on the correlated facts, and an old one counts as much as a new one:
`degrades_iff` says that the rules are silent about what the account has in the region exactly when
no fact left behind is one they find a gap on.
-/

namespace Constat

open Collectors

namespace Storage

/-- The snapshot rule finds a gap only on a volume that is known to be gone. -/
theorem snapshotOrphan_gap {fp : Arith} {version : String} {id : Uuid} {facts : List Fact}
    {today : Date} {i : Insight}
    (h : evaluateStorage fp snapshotOrphan version id facts today = .ok (.gap i)) :
    ∃ f ∈ facts, f.dotted = volumeExists ∧ f.valueState = .known ∧ f.value = .bool false := by
  simp only [evaluateStorage] at h
  split at h
  · simp at h
  · rename_i hmissing
    obtain ⟨f, hget, hknown⟩ := FactIndex.known_of_missing_nil (not_not.1 hmissing)
      (by simp [snapshotOrphan, volumeExists] : volumeExists ∈ snapshotOrphan.requiredFacts)
    obtain ⟨hf, hdotted⟩ := mem_of_indexFacts hget
    refine ⟨f, hf, hdotted, hknown, ?_⟩
    have hvalue : (indexFacts facts).value volumeExists = f.value := by simp [FactIndex.value, hget]
    split at h
    · simp at h
    · cases h
    · simp at h
    · rename_i hemit
      simp only [snapshotOrphan, snapshotShouldEmit] at hemit
      split at hemit
      · cases hemit
      · split at hemit
        · cases hemit
        · rename_i hfalse
          exact hvalue.symm.trans hfalse
        · cases hemit

/-- The instance rule finds a gap only on attached volumes. -/
theorem stopped_gap {fp : Arith} {id : Uuid} {facts : List Fact} {today : Date} {i : Insight}
    (h : evaluateStopped fp id facts today = .ok (.gap i)) :
    ∃ f ∈ facts, f.dotted = attachedVolumes ∧ ∃ v vs, f.value = .list (v :: vs) := by
  simp only [evaluateStopped] at h
  split at h
  · simp at h
  · split at h
    · simp at h
    · split at h
      · simp at h
      · split at h
        · simp at h
        · rename_i f hget
          obtain ⟨hf, hdotted⟩ := mem_of_indexFacts hget
          refine ⟨f, hf, hdotted, ?_⟩
          split at h
          · simp at h
          · simp at h
          · rename_i attached hnil hdicts
            cases hvalue : f.value with
            | list vs =>
              cases vs with
              | nil =>
                rw [hvalue] at hdicts
                cases hdicts
                exact absurd rfl hnil
              | cons v vs => exact ⟨v, vs, rfl⟩
            | _ => rw [hvalue] at hdicts; cases hdicts

end Storage

namespace Runner

/-- The two rules that rest on correlated facts. -/
def correlationRules (fp : Arith) : List ResourceRule :=
  [Storage.rule fp Storage.snapshotOrphan, Storage.stopped fp]

/-- The fact says that a source volume is gone, or that volumes are attached. -/
def Incriminates (row : FactRow) : Prop :=
  (row.dotted = volumeExists ∧ row.valueState = .known ∧ row.value = .bool false) ∨
    (row.dotted = attachedVolumes ∧ ∃ v vs, row.value = .list (v :: vs))

/-- The store holds such a fact of the resource. -/
def LeftBehind (t : Store) (x : Resource) : Prop :=
  ∃ row ∈ t.facts, row.resourceId = some x.id ∧ Incriminates row

/-- The scope of the resource is proven, it has facts, and the rule finds a gap in them. -/
def FindsGap (t : Store) (rule : ResourceRule) (env : RunEnv) (x : Resource) : Prop :=
  isScopeProven t x rule.source env.scopeMaxAge env.now = true ∧ factsOf t x.id ≠ [] ∧
    ∃ i, rule.evaluate x.id (factsOf t x.id) env.today = .ok (.gap i)

def isSnapshotOrInstance (x : Resource) : Bool :=
  x.resourceType = Ec2.snapshotResourceType || x.resourceType = Ec2.instanceResourceType

/-- A snapshot or an instance that the store has for the AWS account, in the region. -/
def isCollected (t : Store) (awsAccountId region : String) (x : Resource) : Bool :=
  isSnapshotOrInstance x && x.region = region &&
    t.accounts.rows.any fun a => a.externalId = awsAccountId && a.id = x.accountId

/-- No stored insight of the rule is about a snapshot or an instance of the account's region. -/
def SilentAbout (awsAccountId region : String) (rule : ResourceRule) (t : Store) : Prop :=
  ∀ x ∈ t.resources, isCollected t awsAccountId region x = true →
    ∀ r ∈ Insights.ofRule t rule.name, r.resourceId ≠ some x.id

instance (awsAccountId region : String) (rule : ResourceRule) (t : Store) :
    Decidable (SilentAbout awsAccountId region rule t) := by
  unfold SilentAbout
  infer_instance

theorem region_of_isCollected {t : Store} {awsAccountId region : String} {x : Resource}
    (h : isCollected t awsAccountId region x = true) : x.region = region := by
  simp only [isCollected, Bool.and_eq_true, decide_eq_true_eq] at h
  exact h.1.2

theorem mem_factsOf {t : Store} {id : Uuid} {f : Fact} (h : f ∈ factsOf t id) :
    ∃ row ∈ t.facts, row.resourceId = some id ∧ toFact row = f := by
  obtain ⟨row, hrow, rfl⟩ := List.mem_map.1 h
  obtain ⟨hmem, hid⟩ := List.mem_filter.1 ((List.mem_insertionSort _).1 hrow)
  exact ⟨row, hmem, of_decide_eq_true hid, rfl⟩

/-- A gap of one of the two rules rests on an incriminating fact. -/
theorem FindsGap.incriminates {fp : Arith} {t : Store} {rule : ResourceRule} {env : RunEnv}
    {x : Resource} (hrule : rule ∈ correlationRules fp) (h : FindsGap t rule env x) :
    LeftBehind t x := by
  obtain ⟨_, _, i, hgap⟩ := h
  simp only [correlationRules, List.mem_cons, List.not_mem_nil, or_false] at hrule
  rcases hrule with rfl | rfl
  · obtain ⟨f, hf, hdotted, hknown, hvalue⟩ := Storage.snapshotOrphan_gap hgap
    obtain ⟨row, hrow, hid, rfl⟩ := mem_factsOf hf
    exact ⟨row, hrow, hid, .inl ⟨hdotted, hknown, hvalue⟩⟩
  · have hstopped : Storage.evaluateStopped fp x.id (factsOf t x.id) env.today = .ok (.gap i) := hgap
    obtain ⟨f, hf, hdotted, hvalue⟩ := Storage.stopped_gap hstopped
    obtain ⟨row, hrow, hid, rfl⟩ := mem_factsOf hf
    exact ⟨row, hrow, hid, .inr ⟨hdotted, hvalue⟩⟩

theorem Incriminates.correlated {row : FactRow} (h : Incriminates row) :
    isCorrelated row = true := by
  rcases h with ⟨hdotted, _⟩ | ⟨hdotted, _⟩ <;> simp [isCorrelated, isCorrelatedKey, hdotted]

/-- A run of a rule is silent about a region exactly when it finds no gap there. -/
theorem silentAbout_iff {fp : Arith} {rule : ResourceRule} {env : RunEnv} {t t' : Store}
    (h : RunEffect fp rule env t t') (awsAccountId region : String) :
    SilentAbout awsAccountId region rule t' ↔ ∀ x ∈ t.resources,
      isCollected t awsAccountId region x = true → ¬ FindsGap t rule env x := by
  have hcollected : ∀ x, isCollected t' awsAccountId region x =
      isCollected t awsAccountId region x := by
    intro x
    rw [isCollected, isCollected, h.inventory.accounts]
  rw [SilentAbout, h.inventory.resources]
  refine forall_congr' fun x => forall_congr' fun hx => ?_
  rw [hcollected]
  refine forall_congr' fun _ => ?_
  have habout := not_congr (h.about_iff hx)
  simp only [not_exists, not_and, mem_emitted_iff] at habout
  rw [habout]
  simp only [FindsGap, not_and, not_exists]
  exact ⟨fun hnone hp hf i => hnone i hp hf, fun hnone i hp hf => hnone hp hf i⟩

theorem FindsGap.congr {t t' : Store} (h : SameInventory t t') {rule : ResourceRule} {env : RunEnv}
    {x : Resource} : FindsGap t' rule env x ↔ FindsGap t rule env x := by
  have hproven : isScopeProven t' x rule.source env.scopeMaxAge env.now =
      isScopeProven t x rule.source env.scopeMaxAge env.now := by
    rw [isScopeProven, isScopeProven, latestSuccessfulRun_congr h.sourceRuns]
  have hfacts : factsOf t' x.id = factsOf t x.id := by rw [factsOf, factsOf, h.facts]
  rw [FindsGap, FindsGap, hproven, hfacts]

/-- Runs of any rules, one after the other. -/
def ruleSteps (fp : Arith) (runs : List (ResourceRule × RunEnv)) (t : Store) : Store :=
  runs.foldl (fun t run => ruleStep fp run.1 run.2 t) t

theorem ruleSteps_inventory (fp : Arith) (runs : List (ResourceRule × RunEnv)) (t : Store) :
    SameInventory t (ruleSteps fp runs t) := by
  induction runs generalizing t with
  | nil => exact ⟨rfl, rfl, rfl, rfl, rfl, rfl, rfl, rfl, rfl, rfl⟩
  | cons run runs ih => exact SameInventory.trans (ruleStep_effect fp run.1 run.2 t).inventory (ih _)

/-- A collection that did not see the volumes of a region, on any store, and any rule runs after
it: the two rules are silent about the snapshots and instances that the account has there exactly
when none of these has a fact left behind from before, in a scope that is proven, with which its
rule finds a gap. -/
theorem degrades_iff {fp : Arith} {t : Store} {region : String} {target : Collector.TargetAccount}
    {options : Collector.Options} {world : Collector.World}
    (hvolumes : (region, "ec2_volume") ∉ Collector.jobsSucceeded target options world t)
    (runs : List (ResourceRule × RunEnv)) {rule : ResourceRule}
    (hrule : rule ∈ correlationRules fp) (env : RunEnv) :
    let t' := Collector.collectStep target options world t
    SilentAbout target.awsAccountId region rule (ruleStep fp rule env (ruleSteps fp runs t')) ↔
      ∀ x ∈ t'.resources, isCollected t' target.awsAccountId region x = true → LeftBehind t x →
        ¬ FindsGap t' rule env x := by
  intro t'
  have hsame := ruleSteps_inventory fp runs t'
  have hcollected : ∀ x, isCollected (ruleSteps fp runs t') target.awsAccountId region x =
      isCollected t' target.awsAccountId region x := by
    intro x
    rw [isCollected, isCollected, hsame.accounts]
  rw [silentAbout_iff (ruleStep_effect fp rule env _), hsame.resources]
  refine forall_congr' fun x => forall_congr' fun hx => ?_
  rw [hcollected, FindsGap.congr hsame]
  refine forall_congr' fun hmine => ?_
  constructor
  · exact fun hgap _ => hgap
  · intro hleft hgap
    refine hleft ?_ hgap
    obtain ⟨row, hrow, hid, hincriminates⟩ := hgap.incriminates hrule
    exact ⟨row, Collector.left_behind hvolumes hx (region_of_isCollected hmine) hrow hid
      hincriminates.correlated, hid, hincriminates⟩

/-! ## An orphan that was not looked for -/

/-- The volume, snapshot and instance jobs of one region. -/
def storageTarget : Collector.TargetAccount where
  awsAccountId := "123456789012"
  roleArn := none
  externalId := none
  name := none
  regions := some ["eu-west-1"]
  resourceTypes := some ["ec2_volume", "ec2_snapshot", "ec2_instance"]

/-- A scan at `at_` of one snapshot, whose volume job ends as `ending` says. -/
def snapshotScan (at_ : Micros) (ending : Collector.ScanEnd) : Collector.World where
  assumeRole := none
  job := fun _ j => {
    contended := false
    startedAt := at_
    items := if j = 1 then [⟨[("SnapshotId", .str "snap-1"), ("State", .str "completed"),
      ("VolumeSize", .int 100), ("VolumeId", .str "vol-1"), ("Description", .str "nightly")],
      at_ + 1, at_ + 2⟩] else []
    ending := if j = 0 then ending else .completed
    finishedAt := at_ + 3
    retiredAt := at_ + 4 }
  correlatedAt := fun _ => at_ + 5

def scanOptions : Collector.Options :=
  ⟨false, false, Collector.defaultMaxConsecutiveRegionErrors, none⟩

/-- The store after a scan that saw all volumes of the region. -/
def orphanSeen : Store :=
  Collector.collectStep storageTarget scanOptions
    (snapshotScan History.tenthOfDecember .completed) .empty

/-- A day later the volume scan is refused. -/
def refusedScan : Collector.World :=
  snapshotScan (History.tenthOfDecember + Micros.day)
    (.clientError "UnauthorizedOperation" "not authorized")

def afterRefusal : RunEnv :=
  ⟨History.tenthOfDecember + Micros.day + 60 * Micros.second, ⟨739961⟩, some defaultScopeMaxAge⟩

/-- The snapshot rule still finds the snapshot orphaned. -/
theorem refused_scan_emits :
    ("eu-west-1", "ec2_volume") ∉ Collector.jobsSucceeded storageTarget scanOptions refusedScan
        orphanSeen ∧
      ("eu-west-1", "ec2_snapshot") ∈ Collector.jobsSucceeded storageTarget scanOptions refusedScan
        orphanSeen ∧
      ("eu-west-1", "ec2_instance") ∈ Collector.jobsSucceeded storageTarget scanOptions refusedScan
        orphanSeen ∧
      ¬ SilentAbout "123456789012" "eu-west-1" (Storage.rule .double Storage.snapshotOrphan)
        (ruleStep .double (Storage.rule .double Storage.snapshotOrphan) afterRefusal
          (Collector.collectStep storageTarget scanOptions refusedScan orphanSeen)) := by
  decide +kernel

/-- With nothing left behind, the refused scan is the first, and the rule is silent. -/
theorem refused_first_scan_silent :
    SilentAbout "123456789012" "eu-west-1" (Storage.rule .double Storage.snapshotOrphan)
      (ruleStep .double (Storage.rule .double Storage.snapshotOrphan) afterRefusal
        (ruleSteps .double [] (Collector.collectStep storageTarget scanOptions refusedScan .empty))) := by
  have hvolumes : ("eu-west-1", "ec2_volume") ∉
      Collector.jobsSucceeded storageTarget scanOptions refusedScan .empty := by decide +kernel
  have hrule : Storage.rule .double Storage.snapshotOrphan ∈ correlationRules .double := by
    simp [correlationRules]
  refine (degrades_iff hvolumes [] hrule afterRefusal).2 fun x _ _ hleft => ?_
  obtain ⟨row, hrow, _⟩ := hleft
  cases hrow

end Runner

end Constat
