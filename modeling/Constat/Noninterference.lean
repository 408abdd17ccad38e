import Constat.VolumeScan

/-!
# Noninterference

A rule run over two stores that agree on the resources of the type the rule is about. The runner
reads every resource, so one of another type leaves an INCONCLUSIVE record of its own; what is
stored about the rule's own resources does not depend on it.

* `AgreeOn` — two stores with the same resources of a type, their facts and their source runs.
* `emitted_congr_on`, `undecided_congr_on` — one resource is evaluated alike in both.
* `needs_own_facts` — a gap rests on a fact of the rule's own kind.
-/

namespace Constat

open Collectors

namespace Runner

/-! ## The type a rule is about -/

/-- The resource type of a rule, and how the keys of its facts begin. -/
def ruleSubjects : List (String × String × String) :=
  [("rds_eol", Rds.resourceType, "aws.rds."), ("mysql_eol", Rds.resourceType, "aws.rds."),
    ("aurora_eol", Rds.resourceType, "aws.rds."),
    ("ebs_gp2_to_gp3", Ec2.volumeResourceType, "aws.ec2.volume."),
    ("ebs_unattached", Ec2.volumeResourceType, "aws.ec2.volume."),
    ("snapshot_orphan", Ec2.snapshotResourceType, "aws.ec2.snapshot."),
    ("ec2_stopped_with_storage", Ec2.instanceResourceType, "aws.ec2.instance.")]

def ruleType (ruleName : String) : String := ((Catalog.find ruleSubjects ruleName).map (·.1)).getD ""

def ruleKeys (ruleName : String) : String := ((Catalog.find ruleSubjects ruleName).map (·.2)).getD ""

def isOwn (ruleName : String) (x : Resource) : Bool := x.resourceType = ruleType ruleName

/-- The fact is one the rule reads of its own resources. -/
def isOwnKey (ruleName dotted : String) : Bool := (ruleKeys ruleName).toList.isPrefixOf dotted.toList

end Runner

/-! ## What a gap rests on -/

namespace Eol

theorem gap_engine {fp : Arith} {config : EolRuleConfig} {version : String} {id : Uuid}
    {facts : List Fact} {today : Date} {i : Insight}
    (h : evaluateEol fp config version id facts today = .ok (.gap i)) :
    ∃ f ∈ facts, f.dotted = "aws.rds.engine" := by
  simp only [evaluateEol] at h
  split at h
  · simp at h
  · rename_i engine hengine
    obtain ⟨hf, hdotted⟩ := mem_of_indexFacts (Option.filter_eq_some_iff.1 hengine).1
    exact ⟨engine, hf, hdotted⟩

end Eol

namespace Storage

theorem gap_required {fp : Arith} {config : StorageRuleConfig} {version : String} {id : Uuid}
    {facts : List Fact} {today : Date} {i : Insight}
    (h : evaluateStorage fp config version id facts today = .ok (.gap i)) {key : String}
    (hkey : key ∈ config.requiredFacts) : ∃ f ∈ facts, f.dotted = key := by
  simp only [evaluateStorage] at h
  split at h
  · simp at h
  · rename_i hmissing
    obtain ⟨f, hget, _⟩ := FactIndex.known_of_missing_nil (not_not.1 hmissing) hkey
    obtain ⟨hf, hdotted⟩ := mem_of_indexFacts hget
    exact ⟨f, hf, hdotted⟩

theorem stopped_gap_state {fp : Arith} {id : Uuid} {facts : List Fact} {today : Date} {i : Insight}
    (h : evaluateStopped fp id facts today = .ok (.gap i)) :
    ∃ f ∈ facts, f.dotted = "aws.ec2.instance.state" := by
  simp only [evaluateStopped] at h
  split at h
  · simp at h
  · rename_i state hstate
    obtain ⟨hf, hdotted⟩ := mem_of_indexFacts (Option.filter_eq_some_iff.1 hstate).1
    exact ⟨state, hf, hdotted⟩

end Storage

namespace Runner

theorem own_of_dotted {name key : String} {facts : List Fact} (hkey : isOwnKey name key = true)
    (h : ∃ f ∈ facts, f.dotted = key) : ∃ f ∈ facts, isOwnKey name f.dotted = true := by
  obtain ⟨f, hf, hdotted⟩ := h
  exact ⟨f, hf, by rw [hdotted]; exact hkey⟩

/-- Every gap of a rule rests on a fact of the kind its own resources have. -/
theorem needs_own_facts {fp : Arith} {rule : ResourceRule} (hrule : rule ∈ resourceRules fp)
    {id : Uuid} {facts : List Fact} {today : Date} {i : Insight}
    (h : rule.evaluate id facts today = .ok (.gap i)) :
    ∃ f ∈ facts, isOwnKey rule.name f.dotted = true := by
  have hrds : ∀ name ∈ ["rds_eol", "mysql_eol", "aurora_eol"],
      isOwnKey name "aws.rds.engine" = true := by decide +kernel
  have hvolume : ∀ name ∈ ["ebs_gp2_to_gp3", "ebs_unattached"],
      isOwnKey name "aws.ec2.volume.volume_type" = true := by decide +kernel
  have hsnapshot : isOwnKey "snapshot_orphan" "aws.ec2.snapshot.state" = true := by decide +kernel
  have hinstance : isOwnKey "ec2_stopped_with_storage" "aws.ec2.instance.state" = true := by
    decide +kernel
  simp only [resourceRules, List.mem_cons, List.not_mem_nil, or_false] at hrule
  rcases hrule with rfl | rfl | rfl | rfl | rfl | rfl | rfl
  · exact own_of_dotted (hrds "rds_eol" (by simp)) (Eol.gap_engine h)
  · exact own_of_dotted (hrds "mysql_eol" (by simp)) (Eol.gap_engine h)
  · exact own_of_dotted (hrds "aurora_eol" (by simp)) (Eol.gap_engine h)
  · exact own_of_dotted (hvolume "ebs_gp2_to_gp3" (by simp))
      (Storage.gap_required h (by simp [Storage.ebsGp2ToGp3]))
  · exact own_of_dotted (hvolume "ebs_unattached" (by simp))
      (Storage.gap_required h (by simp [Storage.ebsUnattached]))
  · exact own_of_dotted hsnapshot (Storage.gap_required h (by simp [Storage.snapshotOrphan]))
  · have hgap : Storage.evaluateStopped fp id facts today = .ok (.gap i) := h
    exact own_of_dotted hinstance (Storage.stopped_gap_state hgap)

/-! ## Agreement on a type -/

/-- Two stores that a rule cannot tell apart by the resources it is about. The facts, the source runs
and the resources of other types may differ, and so may every other table a run does not read. -/
structure AgreeOn (ruleName : String) (t t' : Store) : Prop where
  resources : t'.resources.rows.filter (isOwn ruleName) = t.resources.rows.filter (isOwn ruleName)
  facts : ∀ x ∈ t.resources, isOwn ruleName x = true →
    (t'.facts.rows.filter fun f => f.resourceId = some x.id) =
      t.facts.rows.filter fun f => f.resourceId = some x.id
  sourceRuns : (t'.sourceRuns.rows.filter fun r => r.resourceType = ruleType ruleName) =
    t.sourceRuns.rows.filter fun r => r.resourceType = ruleType ruleName
  focusCharges : t'.focusCharges = t.focusCharges
  acks : Insights.snapshotAcks t' ruleName = Insights.snapshotAcks t ruleName

namespace AgreeOn

variable {ruleName : String} {t t' : Store}

theorem mem_resources (h : AgreeOn ruleName t t') {x : Resource} (hown : isOwn ruleName x = true)
    (hx : x ∈ t.resources) : x ∈ t'.resources := by
  have hmem : x ∈ t'.resources.rows.filter (isOwn ruleName) := by
    rw [h.resources]
    exact List.mem_filter.2 ⟨hx, hown⟩
  exact (List.mem_filter.1 hmem).1

theorem get?_resources (h : AgreeOn ruleName t t') {x : Resource} (hown : isOwn ruleName x = true)
    (hx : x ∈ t.resources) : t'.resources.get? x.id = t.resources.get? x.id := by
  rw [Table.get?_eq_some.2 ⟨hx, rfl⟩, Table.get?_eq_some.2 ⟨h.mem_resources hown hx, rfl⟩]

theorem latestSuccessfulRun (h : AgreeOn ruleName t t') {scope : Scope}
    (hscope : scope.resourceType = ruleType ruleName) (maxAge : Option Micros) (now : Micros) :
    SourceRuns.latestSuccessfulRun t' scope maxAge now =
      SourceRuns.latestSuccessfulRun t scope maxAge now := by
  have hruns : ∀ s : Store, SourceRuns.successfulRuns s scope =
      (s.sourceRuns.rows.filter fun r => r.resourceType = ruleType ruleName).filter
        fun r => r.scope = scope ∧ r.status = .success := by
    intro s
    rw [SourceRuns.successfulRuns, List.filter_filter]
    refine List.filter_congr fun r _ => ?_
    by_cases hr : r.scope = scope
    · have htype : r.resourceType = ruleType ruleName := by rw [← hscope, ← hr]; rfl
      simp [hr, htype]
    · simp [hr]
  rw [SourceRuns.latestSuccessfulRun, SourceRuns.latestSuccessfulRun, hruns, hruns, h.sourceRuns]

theorem evaluateResource (h : AgreeOn ruleName t t') {x : Resource}
    (hown : isOwn ruleName x = true) (hx : x ∈ t.resources) (rule : ResourceRule) (env : RunEnv) :
    evaluateResource t' x rule env (factsOf t' x.id) =
      evaluateResource t x rule env (factsOf t x.id) := by
  have hscope : (scopeOf x rule.source).resourceType = ruleType ruleName := of_decide_eq_true hown
  have hfacts : factsOf t' x.id = factsOf t x.id := by rw [factsOf, factsOf, h.facts x hx hown]
  have hinconclusive : scopeInconclusive t' x rule env = scopeInconclusive t x rule env := by
    rw [scopeInconclusive, scopeInconclusive, isScopeProven, isScopeProven,
      h.latestSuccessfulRun hscope, h.latestSuccessfulRun hscope]
  rw [Runner.evaluateResource, Runner.evaluateResource, hfacts, hinconclusive]

theorem emitted (h : AgreeOn ruleName t t') {x : Resource} (hown : isOwn ruleName x = true)
    (hx : x ∈ t.resources) (rule : ResourceRule) (env : RunEnv) :
    emitted t' rule env x = emitted t rule env x := by
  rw [Runner.emitted, Runner.emitted, h.evaluateResource hown hx]

theorem undecided (h : AgreeOn ruleName t t') {x : Resource} (hown : isOwn ruleName x = true)
    (hx : x ∈ t.resources) (rule : ResourceRule) (env : RunEnv) :
    undecided t' rule env x = undecided t rule env x := by
  rw [Runner.undecided, Runner.undecided, h.evaluateResource hown hx]

end AgreeOn

/-! ## What is stored of a rule -/

/-- A row without the id it happened to get. -/
def unnumbered (r : InsightRow) : InsightRow := { r with id := 0 }

def unnumberedInconclusive (r : InconclusiveRow) : InconclusiveRow := { r with id := 0 }

def ruleInsights (ruleName : String) (t : Store) : List InsightRow :=
  (Insights.ofRule t ruleName).map unnumbered

def ruleInconclusive (ruleName : String) (t : Store) : List InconclusiveRow :=
  (t.inconclusive.rows.filter fun r => r.ruleName = ruleName).map unnumberedInconclusive

/-- The record is about a resource of the type the rule is about. -/
def isAboutOwn (ruleName : String) (t : Store) (resourceId : Option Uuid) : Bool :=
  (resourceId.bind t.resources.get?).any (isOwn ruleName)

def ownInsights (ruleName : String) (t : Store) : List InsightRow :=
  (ruleInsights ruleName t).filter fun r => isAboutOwn ruleName t r.resourceId

def ownInconclusive (ruleName : String) (t : Store) : List InconclusiveRow :=
  (ruleInconclusive ruleName t).filter fun r => isAboutOwn ruleName t r.resourceId

/-- The row an emitted insight ends up as. -/
def storedInsight (fp : Arith) (ruleName : String) (t : Store) (now : Micros) (i : Insight) :
    InsightRow := finishedRow fp ruleName t (insightRow 0 i now)

theorem contextualized_unnumbered (fp : Arith) (t : Store) (ruleName : String) (r : InsightRow) :
    Reconcile.contextualized fp t ruleName (unnumbered r) =
      (Reconcile.contextualized fp t ruleName r).map unnumbered := by
  simp only [Reconcile.contextualized, unnumbered]
  split
  · rfl
  · split
    · rfl
    · rw [Option.map_map]; rfl

theorem carried_unnumbered (acks : Dict String Insights.Ack) (r : InsightRow) :
    Insights.carried acks (unnumbered r) = (Insights.carried acks r).map unnumbered := by
  by_cases h : r.ackStatus = none
  · have h' : (unnumbered r).ackStatus = none := h
    rw [Insights.carried, Insights.carried, if_pos h, if_pos h', Option.map_map]
    rfl
  · have h' : (unnumbered r).ackStatus ≠ none := h
    rw [Insights.carried, Insights.carried, if_neg h, if_neg h']
    rfl

theorem finishedRow_unnumbered (fp : Arith) (ruleName : String) (t : Store) (r : InsightRow) :
    unnumbered (finishedRow fp ruleName t r) = finishedRow fp ruleName t (unnumbered r) := by
  have hgetD : ∀ (o : Option InsightRow) (r : InsightRow),
      (o.map unnumbered).getD (unnumbered r) = unnumbered (o.getD r) := by
    intro o r; cases o <;> rfl
  simp only [finishedRow, contextualized_unnumbered, hgetD, carried_unnumbered]

namespace RunRows

variable {fp : Arith} {rule : ResourceRule} {env : RunEnv} {t u : Store}

/-- What a run leaves of its rule is what it emitted. -/
theorem ruleInsights (h : RunRows fp rule env t u) : ruleInsights rule.name u =
    (emittedAll t rule env).map (storedInsight fp rule.name t env.now) := by
  have hold : (t.insights.rows.filter fun r => r.ruleName ≠ rule.name).filter
      (fun r => r.ruleName = rule.name) = [] := by
    refine List.filter_eq_nil_iff.2 fun r hr hname => ?_
    exact of_decide_eq_true (List.mem_filter.1 hr).2 (of_decide_eq_true hname)
  have hnew : ((insightRows t.insights.next (emittedAll t rule env) env.now).map
      (finishedRow fp rule.name t)).filter (fun r => r.ruleName = rule.name) =
      (insightRows t.insights.next (emittedAll t rule env) env.now).map
        (finishedRow fp rule.name t) := by
    refine List.filter_eq_self.2 fun r hr => decide_eq_true ?_
    obtain ⟨r₀, hr₀, rfl⟩ := List.mem_map.1 hr
    obtain ⟨p, hp, rfl⟩ := List.mem_map.1 hr₀
    have hhead := congrArg (fun hd : Head => hd.1) (head_finishedRow fp rule.name t
      (insightRow p.2 p.1 env.now))
    exact hhead.trans (ruleName_of_mem_emittedAll (List.fst_mem_of_mem_zipIdx hp))
  rw [Runner.ruleInsights, Insights.ofRule, h.insights, List.filter_append, hold, hnew,
    List.nil_append, List.map_map]
  refine map_insightRows _ _ env.now (fun id i => ?_) _ _
  exact finishedRow_unnumbered fp rule.name t (insightRow id i env.now)

theorem ruleInconclusive (h : RunRows fp rule env t u) : ruleInconclusive rule.name u =
    (undecidedAll t rule env).map fun i => inconclusiveRow 0 i env.now := by
  have hold : (t.inconclusive.rows.filter fun r => r.ruleName ≠ rule.name).filter
      (fun r => r.ruleName = rule.name) = [] := by
    refine List.filter_eq_nil_iff.2 fun r hr hname => ?_
    exact of_decide_eq_true (List.mem_filter.1 hr).2 (of_decide_eq_true hname)
  have hnew : (inconclusiveRows t.inconclusive.next (undecidedAll t rule env) env.now).filter
      (fun r => r.ruleName = rule.name) =
      inconclusiveRows t.inconclusive.next (undecidedAll t rule env) env.now := by
    refine List.filter_eq_self.2 fun r hr => decide_eq_true ?_
    obtain ⟨p, hp, rfl⟩ := List.mem_map.1 hr
    obtain ⟨x, _, hi⟩ := List.mem_flatMap.1 (List.fst_mem_of_mem_zipIdx hp)
    exact (mem_undecided hi).1
  rw [Runner.ruleInconclusive, h.inconclusive, List.filter_append, hold, hnew, List.nil_append,
    inconclusiveRows, List.map_map]
  conv => rhs; rw [← List.zipIdx_map_fst t.inconclusive.next (undecidedAll t rule env),
    List.map_map]
  rfl

end RunRows

/-! ## Own resources only -/

/-- A filter that looks at which element a list comes from. -/
theorem filter_flatMap_of {α β : Type} {l : List α} {f : α → List β} {p : α → Bool} {q : β → Bool}
    (h : ∀ x ∈ l, ∀ y ∈ f x, q y = p x) : (l.flatMap f).filter q = (l.filter p).flatMap f := by
  induction l with
  | nil => rfl
  | cons x l ih =>
    have hx : (f x).filter q = if p x then f x else [] := by
      have heq := h x List.mem_cons_self
      by_cases hp : p x = true
      · rw [if_pos hp]; exact List.filter_eq_self.2 fun y hy => (heq y hy).trans hp
      · rw [if_neg hp]; exact List.filter_eq_nil_iff.2 fun y hy hq => hp ((heq y hy).symm.trans hq)
    rw [List.flatMap_cons, List.filter_append, hx, ih fun y hy => h y (List.mem_cons_of_mem x hy),
      List.filter_cons]
    by_cases hp : p x = true <;> simp [hp]

theorem isAboutOwn_of_mem {ruleName : String} {t : Store} {x : Resource} (hx : x ∈ t.resources) :
    isAboutOwn ruleName t (some x.id) = isOwn ruleName x := by
  simp [isAboutOwn, Table.get?_eq_some.2 ⟨hx, rfl⟩]

theorem ownInsights_run {fp : Arith} {rule : ResourceRule} {env : RunEnv} {t u : Store}
    (h : RunRows fp rule env t u) (hinventory : SameInventory t u) : ownInsights rule.name u =
      ((t.resources.rows.filter (isOwn rule.name)).flatMap (emitted t rule env)).map
        (storedInsight fp rule.name t env.now) := by
  have hresource : ∀ i, (storedInsight fp rule.name t env.now i).resourceId = i.resourceId :=
    fun i => congrArg (fun hd : Head => hd.2.1) (head_finishedRow fp rule.name t _)
  rw [ownInsights, h.ruleInsights, List.filter_map, emittedAll, filter_flatMap_of]
  intro x hx i hi
  simp only [Function.comp_apply, hresource, (mem_emitted hi).2, isAboutOwn, hinventory.resources]
  exact isAboutOwn_of_mem hx

theorem ownInconclusive_run {fp : Arith} {rule : ResourceRule} {env : RunEnv} {t u : Store}
    (h : RunRows fp rule env t u) (hinventory : SameInventory t u) : ownInconclusive rule.name u =
      ((t.resources.rows.filter (isOwn rule.name)).flatMap (undecided t rule env)).map
        fun i => inconclusiveRow 0 i env.now := by
  rw [ownInconclusive, h.ruleInconclusive, List.filter_map, undecidedAll, filter_flatMap_of]
  intro x hx i hi
  have hid : (inconclusiveRow 0 i env.now).resourceId = some x.id := (mem_undecided hi).2
  simp only [Function.comp_apply, hid, isAboutOwn, hinventory.resources]
  exact isAboutOwn_of_mem hx

/-- What becomes of an insight about an own resource is the same in both stores. -/
theorem AgreeOn.storedInsight {fp : Arith} {ruleName : String} {t t' : Store}
    (h : AgreeOn ruleName t t') {x : Resource} (hown : isOwn ruleName x = true)
    (hx : x ∈ t.resources) {i : Insight} (hi : i.resourceId = some x.id) (now : Micros) :
    storedInsight fp ruleName t' now i = storedInsight fp ruleName t now i := by
  have hcontext : Reconcile.contextualized fp t' ruleName (insightRow 0 i now) =
      Reconcile.contextualized fp t ruleName (insightRow 0 i now) := by
    have hget : (insightRow 0 i now).resourceId.bind t'.resources.get? =
        (insightRow 0 i now).resourceId.bind t.resources.get? := by
      have hid : (insightRow 0 i now).resourceId = some x.id := hi
      rw [hid]
      exact h.get?_resources hown hx
    simp only [Reconcile.contextualized, hget, Reconcile.latestPeriodLines, h.focusCharges]
  simp only [Runner.storedInsight, finishedRow, hcontext, h.acks]

/-- The keys of the facts of a job. -/
def jobKeys : List (Collector.ScanJob × String × List String) :=
  [(Collector.rds, "aws.rds", ["engine", "engine_version", "instance_class", "vcpu", "region"]),
    (Collector.ec2Volume, "aws.ec2.volume", ["size_gb", "volume_type", "state", "encrypted", "iops",
      "throughput", "attached_instance_id", "attached_device", "create_time", "region"]),
    (Collector.ec2Snapshot, "aws.ec2.snapshot", ["state", "size_gb", "storage_tier", "volume_id",
      "start_time", "description", "region"]),
    (Collector.ec2Instance, "aws.ec2.instance", ["state", "instance_type", "launch_time",
      "block_device_volume_ids", "region"])]

/-- A job writes facts of one kind, and only the rules about its type read that kind. -/
theorem job_facts_own {job : Collector.ScanJob} (hjob : job ∈ Collector.jobRegistry)
    (id account : Uuid) (raw : Raw) (observedAt : Micros) :
    ∀ f ∈ job.facts id account raw observedAt, ∀ p ∈ ruleSubjects,
      isOwnKey p.1 f.dotted = true → p.2.1 = job.resourceType := by
  have hkeys : ∀ k ∈ jobKeys, ∀ key ∈ k.2.2, ∀ p ∈ ruleSubjects,
      isOwnKey p.1 (k.2.1 ++ "." ++ key) = true → p.2.1 = k.1.resourceType := by decide +kernel
  have hdotted : ∃ k ∈ jobKeys, k.1 = job ∧ (job.facts id account raw observedAt).map Fact.dotted =
      k.2.2.map fun key => k.2.1 ++ "." ++ key := by
    simp only [Collector.jobRegistry, List.mem_cons, List.not_mem_nil, or_false] at hjob
    rcases hjob with rfl | rfl | rfl | rfl
    · exact ⟨_, List.mem_of_getElem? (i := 0) rfl, rfl, rfl⟩
    · exact ⟨_, List.mem_of_getElem? (i := 1) rfl, rfl, rfl⟩
    · exact ⟨_, List.mem_of_getElem? (i := 2) rfl, rfl, rfl⟩
    · exact ⟨_, List.mem_of_getElem? (i := 3) rfl, rfl, rfl⟩
  intro f hf p hp hkey
  obtain ⟨k, hk, rfl, hfacts⟩ := hdotted
  have hmem : f.dotted ∈ k.2.2.map fun key => k.2.1 ++ "." ++ key := by
    rw [← hfacts]
    exact List.mem_map_of_mem hf
  obtain ⟨key, hmem, heq⟩ := List.mem_map.1 hmem
  exact hkeys k hk key hmem p hp (by rw [heq]; exact hkey)

/-- No resource of another type has a fact of the kind the rule reads, as the collectors write
facts. -/
def OwnFacts (ruleName : String) (t : Store) : Prop :=
  ∀ x ∈ t.resources, isOwn ruleName x = false →
    ∀ row ∈ t.facts, row.resourceId = some x.id → isOwnKey ruleName row.dotted = false

/-- Every insight of the rule is about an own resource then. -/
theorem emitted_other {fp : Arith} {rule : ResourceRule} (hrule : rule ∈ resourceRules fp)
    {t : Store} (hfacts : OwnFacts rule.name t) {env : RunEnv} {x : Resource}
    (hx : x ∈ t.resources) (hother : isOwn rule.name x = false) : emitted t rule env x = [] := by
  refine List.eq_nil_iff_forall_not_mem.2 fun i hi => ?_
  obtain ⟨_, _, hgap⟩ := mem_emitted_iff.1 hi
  obtain ⟨f, hf, hkey⟩ := needs_own_facts hrule hgap
  obtain ⟨row, hrow, hid, rfl⟩ := mem_factsOf hf
  have hno := hfacts x hx hother row hrow hid
  exact Bool.false_ne_true (hno.symm.trans hkey)

theorem emittedAll_own {fp : Arith} {rule : ResourceRule} (hrule : rule ∈ resourceRules fp)
    {t : Store} (hfacts : OwnFacts rule.name t) (env : RunEnv) : emittedAll t rule env =
      (t.resources.rows.filter (isOwn rule.name)).flatMap (emitted t rule env) := by
  have hall : (emittedAll t rule env).filter (fun i => isAboutOwn rule.name t i.resourceId) =
      emittedAll t rule env := by
    refine List.filter_eq_self.2 fun i hi => ?_
    obtain ⟨x, hx, hi⟩ := List.mem_flatMap.1 hi
    rw [(mem_emitted hi).2, isAboutOwn_of_mem hx]
    by_contra hother
    rw [emitted_other hrule hfacts hx (Bool.eq_false_iff.2 hother)] at hi
    cases hi
  rw [← hall, emittedAll, filter_flatMap_of]
  intro x hx i hi
  rw [(mem_emitted hi).2]
  exact isAboutOwn_of_mem hx

/-- Two stores that agree on the resources of the type a rule is about: the run leaves the same
insights and the same inconclusive records about them. When only own resources have facts of the
rule's kind, it leaves the same insights altogether. -/
theorem noninterference {fp : Arith} {rule : ResourceRule} (hrule : rule ∈ resourceRules fp)
    {t t' : Store} (h : AgreeOn rule.name t t') (env : RunEnv) :
    ownInsights rule.name (ruleStep fp rule env t') =
        ownInsights rule.name (ruleStep fp rule env t) ∧
      ownInconclusive rule.name (ruleStep fp rule env t') =
        ownInconclusive rule.name (ruleStep fp rule env t) ∧
      (OwnFacts rule.name t → OwnFacts rule.name t' →
        ruleInsights rule.name (ruleStep fp rule env t') =
          ruleInsights rule.name (ruleStep fp rule env t)) := by
  have hrows := ruleStep_rows fp rule env t
  have hrows' := ruleStep_rows fp rule env t'
  have hinventory := (ruleStep_effect fp rule env t).inventory
  have hinventory' := (ruleStep_effect fp rule env t').inventory
  have hemitted : (t.resources.rows.filter (isOwn rule.name)).flatMap (emitted t' rule env) =
      (t.resources.rows.filter (isOwn rule.name)).flatMap (emitted t rule env) := by
    refine List.flatMap_congr fun x hx => ?_
    exact h.emitted (List.mem_filter.1 hx).2 (List.mem_filter.1 hx).1 rule env
  have hundecided : (t.resources.rows.filter (isOwn rule.name)).flatMap (undecided t' rule env) =
      (t.resources.rows.filter (isOwn rule.name)).flatMap (undecided t rule env) := by
    refine List.flatMap_congr fun x hx => ?_
    exact h.undecided (List.mem_filter.1 hx).2 (List.mem_filter.1 hx).1 rule env
  have hstored : ((t.resources.rows.filter (isOwn rule.name)).flatMap (emitted t rule env)).map
        (storedInsight fp rule.name t' env.now) =
      ((t.resources.rows.filter (isOwn rule.name)).flatMap (emitted t rule env)).map
        (storedInsight fp rule.name t env.now) := by
    refine List.map_congr_left fun i hi => ?_
    obtain ⟨x, hx, hi⟩ := List.mem_flatMap.1 hi
    obtain ⟨hx, hown⟩ := List.mem_filter.1 hx
    exact h.storedInsight hown hx (mem_emitted hi).2 env.now
  refine ⟨?_, ?_, fun hfacts hfacts' => ?_⟩
  · rw [ownInsights_run hrows hinventory, ownInsights_run hrows' hinventory', h.resources, hemitted,
      hstored]
  · rw [ownInconclusive_run hrows hinventory, ownInconclusive_run hrows' hinventory', h.resources,
      hundecided]
  · rw [hrows.ruleInsights, hrows'.ruleInsights, emittedAll_own hrule hfacts,
      emittedAll_own hrule hfacts', h.resources, hemitted, hstored]

/-! ## A database beside a snapshot -/

/-- The orphaned snapshot, and an hour later a database of the same account. -/
def snapshotAndDb : Store :=
  History.step .double orphanSeen
    (History.rdsScan (History.tenthOfDecember + 3600 * Micros.second) [History.ordersDb])

def dbOnly : Store :=
  History.step .double .empty (History.rdsScan History.tenthOfDecember [History.ordersDb])

def anHourLater : RunEnv :=
  ⟨History.tenthOfDecember + 3660 * Micros.second, ⟨739961⟩, some defaultScopeMaxAge⟩

def orphanRule : ResourceRule := Storage.rule .double Storage.snapshotOrphan

theorem orphan_beside_db :
    ruleInsights "snapshot_orphan" (ruleStep .double orphanRule anHourLater snapshotAndDb) =
        ruleInsights "snapshot_orphan" (ruleStep .double orphanRule anHourLater orphanSeen) ∧
      ownInsights "snapshot_orphan" (ruleStep .double orphanRule anHourLater orphanSeen) ≠ [] := by
  have hagree : AgreeOn orphanRule.name orphanSeen snapshotAndDb :=
    ⟨by decide +kernel, by decide +kernel, by decide +kernel, by decide +kernel, by decide +kernel⟩
  have hrule : orphanRule ∈ resourceRules .double := by simp [resourceRules, orphanRule]
  have hfacts : OwnFacts orphanRule.name orphanSeen := by unfold OwnFacts; decide +kernel
  have hfacts' : OwnFacts orphanRule.name snapshotAndDb := by unfold OwnFacts; decide +kernel
  exact ⟨(noninterference hrule hagree anHourLater).2.2 hfacts hfacts', by decide +kernel⟩

/-- The database leaves a record of a rule about volumes. -/
theorem db_leaves_record :
    AgreeOn "ebs_gp2_to_gp3" .empty dbOnly ∧
      ruleInconclusive "ebs_gp2_to_gp3" (ruleStep .double
          (Storage.rule .double Storage.ebsGp2ToGp3) anHourLater dbOnly) ≠
        ruleInconclusive "ebs_gp2_to_gp3" (ruleStep .double
          (Storage.rule .double Storage.ebsGp2ToGp3) anHourLater .empty) :=
  ⟨⟨by decide +kernel, by decide +kernel, by decide +kernel, by decide +kernel, by decide +kernel⟩,
    by decide +kernel⟩

end Runner

end Constat
