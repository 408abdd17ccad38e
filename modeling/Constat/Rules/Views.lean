import Constat.Rules.Registry

/-!
# Rules.Views

What an evaluator reads of a fact: its value, its state and its account, and of these under a few
keys only. The source and the time of the observation are not read, so two fact lists that show the
same under the keys of a rule are decided alike by it (`readsUnder_ruleKeys`).
-/

namespace Constat

namespace FactIndex

structure View where
  value : Json
  valueState : ValueState
  accountId : Option Uuid
deriving DecidableEq

def viewOf (f : Fact) : View := ⟨f.value, f.valueState, f.accountId⟩

/-- What the index shows under a key. -/
def view (idx : FactIndex) (key : String) : Option View := (idx.get? key).map viewOf

/-- The indexes show the same under the keys. -/
def SameUnder (keys : List String) (idx idx' : FactIndex) : Prop :=
  ∀ key ∈ keys, idx.view key = idx'.view key

namespace SameUnder

variable {keys : List String} {idx idx' : FactIndex} {key : String}

theorem get?_cases (h : SameUnder keys idx idx') (hkey : key ∈ keys) :
    (idx.get? key = none ∧ idx'.get? key = none) ∨
      ∃ f f', idx.get? key = some f ∧ idx'.get? key = some f' ∧ viewOf f = viewOf f' := by
  have hview := h key hkey
  unfold view at hview
  cases hf : idx.get? key with
  | none =>
    cases hf' : idx'.get? key with
    | none => exact .inl ⟨rfl, rfl⟩
    | some f' => rw [hf, hf'] at hview; cases hview
  | some f =>
    cases hf' : idx'.get? key with
    | none => rw [hf, hf'] at hview; cases hview
    | some f' =>
      rw [hf, hf'] at hview
      exact .inr ⟨f, f', rfl, rfl, Option.some.inj hview⟩

theorem value (h : SameUnder keys idx idx') (hkey : key ∈ keys) :
    idx.value key = idx'.value key := by
  unfold FactIndex.value
  rcases h.get?_cases hkey with ⟨hf, hf'⟩ | ⟨f, f', hf, hf', hview⟩
  · rw [hf, hf']
  · rw [hf, hf']
    exact congrArg View.value hview

theorem known_cases (h : SameUnder keys idx idx') (hkey : key ∈ keys) :
    (idx.known key = none ∧ idx'.known key = none) ∨
      ∃ f f', idx.known key = some f ∧ idx'.known key = some f' ∧ f.value = f'.value ∧
        f.accountId = f'.accountId := by
  unfold known
  rcases h.get?_cases hkey with ⟨hf, hf'⟩ | ⟨f, f', hf, hf', hview⟩
  · exact .inl ⟨by rw [hf]; rfl, by rw [hf']; rfl⟩
  · have hstate : f.valueState = f'.valueState := congrArg View.valueState hview
    rw [hf, hf', Option.filter_some, Option.filter_some, ← hstate]
    by_cases hk : f.valueState = .known
    · refine .inr ⟨f, f', ?_, ?_, congrArg View.value hview, congrArg View.accountId hview⟩
      · rw [if_pos (decide_eq_true hk)]
      · rw [if_pos (decide_eq_true hk)]
    · refine .inl ⟨?_, ?_⟩
      · rw [decide_eq_false hk]; rfl
      · rw [decide_eq_false hk]; rfl

theorem missing (h : SameUnder keys idx idx') {gates : List String} (hgates : gates ⊆ keys) :
    idx.missing gates = idx'.missing gates := by
  refine List.filter_congr fun key hkey => ?_
  rcases h.known_cases (hgates hkey) with ⟨hf, hf'⟩ | ⟨f, f', hf, hf', _⟩
  · rw [hf, hf']
  · rw [hf, hf']
    rfl

theorem accountId (h : SameUnder keys idx idx') (hkey : key ∈ keys) :
    (idx.get? key).bind (·.accountId) = (idx'.get? key).bind (·.accountId) := by
  rcases h.get?_cases hkey with ⟨hf, hf'⟩ | ⟨f, f', hf, hf', hview⟩
  · rw [hf, hf']
  · rw [hf, hf']
    exact congrArg View.accountId hview

end SameUnder

end FactIndex

open FactIndex

/-- The evaluator decides by what the facts show under these keys. -/
def ReadsUnder (keys : List String) (rule : ResourceRule) : Prop :=
  ∀ id facts facts' today, SameUnder keys (indexFacts facts) (indexFacts facts') →
    rule.evaluate id facts today = rule.evaluate id facts' today

/-! ## The end-of-life rules -/

namespace Eol

theorem evaluateKnown_congr {fp : Arith} {config : EolRuleConfig} {m : EngineEolMatcher} {id : Uuid}
    {engine engine' version version' vcpu vcpu' region region' : Fact} {current : Date}
    {catalogVersion : String} (hengine : engine.accountId = engine'.accountId)
    (hversion : version.value = version'.value) (hvcpu : vcpu.value = vcpu'.value)
    (hregion : region.value = region'.value) :
    evaluateKnown fp config m id engine version vcpu region current catalogVersion =
      evaluateKnown fp config m id engine' version' vcpu' region' current catalogVersion := by
  unfold evaluateKnown
  rw [hengine, hversion, hvcpu, hregion]

theorem readsUnder_gates (fp : Arith) (config : EolRuleConfig) :
    ReadsUnder gates (rule fp config) := by
  intro id facts facts' today h
  show evaluateEol fp config _ id facts today = evaluateEol fp config _ id facts' today
  have hengine : "aws.rds.engine" ∈ gates := by decide
  have hversion : "aws.rds.engine_version" ∈ gates := by decide
  have hvcpu : "aws.rds.vcpu" ∈ gates := by decide
  have hregion : "aws.rds.region" ∈ gates := by decide
  unfold evaluateEol
  simp only [h.missing (List.Subset.refl gates)]
  rcases h.known_cases hengine with ⟨hf, hf'⟩ | ⟨engine, engine', hf, hf', hvalue, haccount⟩
  · simp only [hf, hf']
  · simp only [hf, hf', hvalue]
    cases selectMatcher config (Py.str engine'.value) with
    | none => rfl
    | some m =>
      rcases h.known_cases hversion with ⟨hv, hv'⟩ | ⟨v, v', hv, hv', hsame, _⟩
      · simp only [hv, hv']
      · rcases h.known_cases hvcpu with ⟨hc, hc'⟩ | ⟨c, c', hc, hc', hcount, _⟩
        · simp only [hv, hv', hc, hc']
        · rcases h.known_cases hregion with ⟨hr, hr'⟩ | ⟨r, r', hr, hr', hplace, _⟩
          · simp only [hv, hv', hc, hc', hr, hr']
          · simp only [hv, hv', hc, hc', hr, hr']
            exact evaluateKnown_congr haccount hsame hcount hplace

end Eol

/-! ## The storage rules -/

namespace Storage

/-- The parts of a storage rule read an index under the keys. -/
structure ConfigReads (keys : List String) (config : StorageRuleConfig) : Prop where
  required : config.requiredFacts ⊆ keys
  shouldEmit : ∀ {idx idx'}, SameUnder keys idx idx' →
    config.shouldEmit idx = config.shouldEmit idx'
  computeCost : ∀ {idx idx'}, SameUnder keys idx idx' →
    ∀ fp today, config.computeCost fp idx today = config.computeCost fp idx' today

section

variable {keys : List String} {config : StorageRuleConfig} {idx idx' : FactIndex}

theorem makeInsight_congr (hrequired : config.requiredFacts ⊆ keys) (id : Uuid)
    (h : SameUnder keys idx idx') (catalogVersion : String) (cost : StorageCost) :
    makeInsight config id idx catalogVersion cost = makeInsight config id idx' catalogVersion cost := by
  have haccount : (config.requiredFacts.head?.bind idx.get?).bind (·.accountId) =
      (config.requiredFacts.head?.bind idx'.get?).bind (·.accountId) := by
    cases hhead : config.requiredFacts.head? with
    | none => rfl
    | some key => exact h.accountId (hrequired (List.mem_of_head? hhead))
  unfold makeInsight
  rw [haccount]

theorem ConfigReads.rule (hconfig : ConfigReads keys config) (fp : Arith) :
    ReadsUnder keys (rule fp config) := by
  intro id facts facts' today h
  show evaluateStorage fp config _ id facts today = evaluateStorage fp config _ id facts' today
  unfold evaluateStorage
  simp only [h.missing hconfig.required, hconfig.shouldEmit h, hconfig.computeCost h,
    makeInsight_congr hconfig.required id h]

theorem intFact_congr (h : SameUnder keys idx idx') {key : String} (hkey : key ∈ keys) :
    intFact idx key = intFact idx' key := by
  unfold intFact
  rw [h.value hkey]

end

theorem gp2_reads : ConfigReads ebsGp2ToGp3.requiredFacts ebsGp2ToGp3 := by
  have htype : "aws.ec2.volume.volume_type" ∈ ebsGp2ToGp3.requiredFacts := by decide
  have hsize : "aws.ec2.volume.size_gb" ∈ ebsGp2ToGp3.requiredFacts := by decide
  have hregion : "aws.ec2.volume.region" ∈ ebsGp2ToGp3.requiredFacts := by decide
  refine ⟨List.Subset.refl _, fun {idx idx'} h => ?_, fun {idx idx'} h fp today => ?_⟩
  · show Except.ok (decide (idx.value _ = _)) = Except.ok (decide (idx'.value _ = _))
    rw [h.value htype]
  · show gp2Cost fp idx = gp2Cost fp idx'
    unfold gp2Cost
    rw [h.value hregion, intFact_congr h hsize]

theorem unattached_reads : ConfigReads ebsUnattached.requiredFacts ebsUnattached := by
  have hstate : "aws.ec2.volume.state" ∈ ebsUnattached.requiredFacts := by decide
  have hsize : "aws.ec2.volume.size_gb" ∈ ebsUnattached.requiredFacts := by decide
  have htype : "aws.ec2.volume.volume_type" ∈ ebsUnattached.requiredFacts := by decide
  have hregion : "aws.ec2.volume.region" ∈ ebsUnattached.requiredFacts := by decide
  refine ⟨List.Subset.refl _, fun {idx idx'} h => ?_, fun {idx idx'} h fp today => ?_⟩
  · show Except.ok (decide (idx.value _ = _)) = Except.ok (decide (idx'.value _ = _))
    rw [h.value hstate]
  · show unattachedCost fp idx = unattachedCost fp idx'
    unfold unattachedCost
    rw [h.value htype, h.value hregion, intFact_congr h hsize]

/-- The tier and the start time are read without being required. -/
def orphanKeys : List String :=
  snapshotOrphan.requiredFacts ++
    ["aws.ec2.snapshot.storage_tier", "aws.ec2.snapshot.start_time"]

theorem storageTier_congr {idx idx' : FactIndex} (h : SameUnder orphanKeys idx idx') :
    storageTier idx = storageTier idx' := by
  have htier : "aws.ec2.snapshot.storage_tier" ∈ orphanKeys := by decide
  unfold storageTier
  rcases h.known_cases htier with ⟨hf, hf'⟩ | ⟨f, f', hf, hf', hvalue, _⟩
  · rw [hf, hf']
  · simp only [hf, hf', hvalue]

theorem orphan_reads : ConfigReads orphanKeys snapshotOrphan := by
  have hstate : "aws.ec2.snapshot.state" ∈ orphanKeys := by decide
  have hsize : "aws.ec2.snapshot.size_gb" ∈ orphanKeys := by decide
  have hvolume : "aws.ec2.snapshot.volume_exists" ∈ orphanKeys := by decide
  have hdescription : "aws.ec2.snapshot.description" ∈ orphanKeys := by decide
  have hregion : "aws.ec2.snapshot.region" ∈ orphanKeys := by decide
  have hstart : "aws.ec2.snapshot.start_time" ∈ orphanKeys := by decide
  refine ⟨List.subset_append_left _ _, fun {idx idx'} h => ?_, fun {idx idx'} h fp today => ?_⟩
  · show snapshotShouldEmit idx = snapshotShouldEmit idx'
    unfold snapshotShouldEmit
    rw [h.value hstate, h.value hvolume, h.value hdescription]
  · show snapshotCost fp idx today = snapshotCost fp idx' today
    unfold snapshotCost
    rw [storageTier_congr h, h.value hregion, h.value hstart, intFact_congr h hsize]

def stoppedKeys : List String :=
  ["aws.ec2.instance.state", "aws.ec2.instance.region", "aws.ec2.instance.attached_volumes"]

theorem stopped_reads (fp : Arith) : ReadsUnder stoppedKeys (stopped fp) := by
  intro id facts facts' today h
  show evaluateStopped fp id facts today = evaluateStopped fp id facts' today
  have hstate : "aws.ec2.instance.state" ∈ stoppedKeys := by decide
  have hregion : "aws.ec2.instance.region" ∈ stoppedKeys := by decide
  have hattached : "aws.ec2.instance.attached_volumes" ∈ stoppedKeys := by decide
  unfold evaluateStopped
  rcases h.known_cases hstate with ⟨hf, hf'⟩ | ⟨s, s', hf, hf', hvalue, haccount⟩
  · simp only [hf, hf']
  · rcases h.known_cases hregion with ⟨hr, hr'⟩ | ⟨r, r', hr, hr', hplace, _⟩
    · simp only [hf, hf', hr, hr', hvalue]
    · rcases h.get?_cases hattached with ⟨hv, hv'⟩ | ⟨v, v', hv, hv', hview⟩
      · simp only [hf, hf', hr, hr', hv, hv', hvalue]
      · have hvolumes : v.value = v'.value := congrArg View.value hview
        simp only [hf, hf', hr, hr', hv, hv', hvalue, haccount, hplace, hvolumes]

end Storage

/-! ## The registry -/

/-- The rules of the registry, each with the keys it reads. -/
def ruleKeys (fp : Arith) : List (ResourceRule × List String) :=
  [(Eol.rule fp Eol.rdsEol, Eol.gates), (Eol.rule fp Eol.mysqlEolConfig, Eol.gates),
    (Eol.rule fp Eol.auroraEol, Eol.gates),
    (Storage.rule fp Storage.ebsGp2ToGp3, Storage.ebsGp2ToGp3.requiredFacts),
    (Storage.rule fp Storage.ebsUnattached, Storage.ebsUnattached.requiredFacts),
    (Storage.rule fp Storage.snapshotOrphan, Storage.orphanKeys),
    (Storage.stopped fp, Storage.stoppedKeys)]

theorem map_fst_ruleKeys (fp : Arith) : (ruleKeys fp).map Prod.fst = resourceRules fp := rfl

theorem readsUnder_ruleKeys (fp : Arith) : ∀ p ∈ ruleKeys fp, ReadsUnder p.2 p.1 := by
  simp only [ruleKeys, List.forall_mem_cons]
  exact ⟨Eol.readsUnder_gates fp _, Eol.readsUnder_gates fp _, Eol.readsUnder_gates fp _,
    Storage.gp2_reads.rule fp, Storage.unattached_reads.rule fp, Storage.orphan_reads.rule fp,
    Storage.stopped_reads fp, fun _ h => by cases h⟩

end Constat
