import Constat.Collectors.Ec2
import Constat.Rules.Raises

/-!
# StoppedStorage

The rule `ec2_stopped_with_storage` on what the collector writes about an instance. The correlation
keeps the block devices that the volume scan saw and leaves no trace of the others; the rule reads
the list as all there is, and an empty one as an instance without EBS.

* `Doubtful` — a volume of the instance is missing from the scan, or cannot be priced.
* `Hedged`   — the rule is inconclusive, or says that its amount is incomplete.
* `hedged_iff` — when a doubtful instance is hedged.
-/

namespace Constat

open Catalog Collectors Collectors.Ec2

/-! ## Facts under a key that only one of them has -/

theorem get?_indexFacts {facts : List Fact} {f : Fact} (hf : f ∈ facts)
    (hone : ∀ g ∈ facts, g.dotted = f.dotted → g = f) :
    (indexFacts facts).get? f.dotted = some f := by
  have hsome := (Dict.get?_foldl_set_isSome Fact.dotted id facts .empty f.dotted).2
    (.inl ⟨f, hf, rfl⟩)
  obtain ⟨g, hg⟩ := Option.isSome_iff_exists.1 hsome
  obtain ⟨hmem, hdotted⟩ := mem_of_indexFacts hg
  rw [← hone g hmem hdotted]
  exact hone g hmem hdotted ▸ hg

theorem get?_indexFacts_none {facts : List Fact} {key : String}
    (hnone : ∀ f ∈ facts, f.dotted ≠ key) : (indexFacts facts).get? key = none := by
  cases hget : (indexFacts facts).get? key with
  | none => rfl
  | some f =>
    obtain ⟨hf, hdotted⟩ := mem_of_indexFacts hget
    exact absurd hdotted (hnone f hf)

namespace Storage

/-! ## The amount of a list of volumes -/

/-- A volume of this type and size adds nothing to the sum. -/
def unpriced (kind size : Json) : Bool :=
  kind = .null ∨ isPriced storageGridUsd (.str (Py.str kind)) = false ∨ size = .null

def entryUnpriced (vol : List (String × Json)) : Bool :=
  unpriced ((Json.get? vol "volume_type").getD .null) ((Json.get? vol "size_gb").getD .null)

theorem addVolume_incomplete {region : String} {b b' : Breakdown} {vol : List (String × Json)}
    (h : addVolume .double region b vol = .ok b') :
    b'.incomplete = (b.incomplete || entryUnpriced vol) := by
  simp only [addVolume] at h
  simp only [entryUnpriced, unpriced]
  generalize (Json.get? vol "volume_type").getD .null = kind at *
  generalize (Json.get? vol "size_gb").getD .null = size at *
  by_cases hkind : kind = .null
  · rw [if_pos hkind] at h
    cases h
    simp [hkind]
  · rw [if_neg hkind] at h
    rcases pricePerGbMonth_spec .double storage_sameKinds (.str (Py.str kind)) (.str region) with
      ⟨hcontainer, _⟩ | ⟨_, price, hprice, hpriced⟩
    · simp [Py.isContainer, Py.unhashable] at hcontainer
    · rw [ebsPricePerGbMonth, hprice] at h
      rw [← hpriced]
      cases price with
      | none =>
        cases h
        simp
      | some price =>
        by_cases hsize : size = .null
        · simp only [if_pos hsize] at h
          cases h
          simp [hsize]
        · simp only [if_neg hsize] at h
          split at h
          · cases h
          · split at h
            · cases h
            · cases h
              simp [hkind, hsize]

theorem addVolumes_incomplete {region : String} {attached : List (List (String × Json))}
    {b b' : Breakdown} (h : attached.foldlM (addVolume .double region) b = .ok b') :
    b'.incomplete = (b.incomplete || attached.any entryUnpriced) := by
  induction attached generalizing b with
  | nil =>
    cases h
    simp
  | cons vol attached ih =>
    rw [List.foldlM_cons] at h
    cases hadd : addVolume .double region b vol with
    | error e =>
      rw [hadd] at h
      cases h
    | ok b₁ =>
      rw [hadd] at h
      rw [ih h, addVolume_incomplete hadd, List.any_cons, Bool.or_assoc]

theorem dicts_objs (xs : List (List (String × Json))) : dicts (.list (xs.map .obj)) = some xs := by
  simp only [dicts]
  induction xs with
  | nil => rfl
  | cons x xs ih =>
    rw [List.map_cons, List.mapM_cons, ih]
    rfl

/-! ## Hedged results -/

/-- The rule does not say "nothing here", nor that its amount is all there is. -/
def Hedged (r : Except PyError RuleResult) : Prop :=
  (∃ reasons, reasons ≠ [] ∧ r = .ok (.inconclusive reasons)) ∨
    ∃ i, r = .ok (.gap i) ∧ Json.get? i.payload "pricing_incomplete" = some (.bool true)

theorem hedged_inconclusive {reasons : List String} (h : reasons ≠ []) :
    Hedged (.ok (.inconclusive reasons)) := .inl ⟨reasons, h, rfl⟩

theorem not_hedged_noMatch : ¬ Hedged (.ok .noMatch) := by
  rintro (⟨reasons, hne, h⟩ | ⟨i, h, _⟩)
  · exact hne (congrArg RuleResult.inconclusiveReasons (Except.ok.inj h)).symm
  · exact RuleResult.noMatch_ne_gap i (Except.ok.inj h)

theorem not_hedged_error (e : PyError) : ¬ Hedged (.error e) := by
  rintro (⟨_, _, h⟩ | ⟨_, h, _⟩) <;> cases h

theorem hedged_stoppedInsight (id : Uuid) (accountId : Option Uuid) (region : String)
    (total : PyFloat) (b : Breakdown) :
    Hedged (.ok (.gap (stoppedInsight id accountId region total b))) ↔ b.incomplete = true := by
  have hflag : Json.get? (stoppedInsight id accountId region total b).payload "pricing_incomplete" =
      some (.bool b.incomplete) := rfl
  constructor
  · rintro (⟨reasons, _, h⟩ | ⟨i, h, hi⟩)
    · exact absurd (Except.ok.inj h).symm (RuleResult.inconclusive_ne_gap reasons _)
    · have hinsights := congrArg RuleResult.insights (Except.ok.inj h)
      cases hinsights
      simpa [hflag] using hi
  · intro h
    exact .inr ⟨_, rfl, by rw [hflag, h]⟩

/-- The amount is said to be all there is. -/
def saysComplete : Except PyError RuleResult → Bool
  | .ok r => r.insights.any fun i =>
      Json.get? i.payload "pricing_incomplete" = some (.bool false)
  | .error _ => false

theorem not_hedged_of_saysComplete {r : Except PyError RuleResult} (h : saysComplete r = true) :
    ¬ Hedged r := by
  rintro (⟨reasons, _, rfl⟩ | ⟨i, rfl, hi⟩)
  · simp [saysComplete, RuleResult.inconclusive] at h
  · simp [saysComplete, RuleResult.gap, hi] at h

/-- With a stopped state, a region and a list of attached volumes, the rule is hedged exactly when
it prices without raising and one of the volumes has no price. -/
theorem evaluateStopped_hedged {id : Uuid} {facts : List Fact} {today : Date}
    {state region volumes : Fact} {attached : List (List (String × Json))}
    (hstate : (indexFacts facts).known "aws.ec2.instance.state" = some state)
    (hstopped : state.value = .str stoppedState)
    (hregion : (indexFacts facts).known "aws.ec2.instance.region" = some region)
    (hvolumes : (indexFacts facts).get? "aws.ec2.instance.attached_volumes" = some volumes)
    (hattached : volumes.value = .list (attached.map .obj)) :
    Hedged (evaluateStopped .double id facts today) ↔
      (∀ vol ∈ attached, volumeTrips vol = false) ∧ ∃ vol ∈ attached, entryUnpriced vol = true := by
  have hraises : Raises (evaluateStopped .double id facts today) ↔
      StoppedTrips (indexFacts facts) := stopped_raises today
  have htrips : StoppedTrips (indexFacts facts) ↔ ∃ vol ∈ attached, volumeTrips vol = true := by
    rw [StoppedTrips, hstate, hregion, hvolumes]
    simp [hstopped, hattached, dicts_objs]
  rw [htrips] at hraises
  have hnone : (∀ vol ∈ attached, volumeTrips vol = false) ↔
      ¬ Raises (evaluateStopped .double id facts today) := by
    rw [hraises]
    simp
  rw [hnone]
  simp only [evaluateStopped, hstate, hstopped, hregion, hvolumes, hattached, dicts_objs,
    ne_eq, not_true_eq_false, if_false]
  cases attached with
  | nil => simp [not_hedged_noMatch]
  | cons vol rest =>
    simp only
    cases hsum : (vol :: rest).foldlM (addVolume .double (Py.str region.value))
        ⟨.finite 0, [], true, false, []⟩ with
    | error e => simp [not_hedged_error]
    | ok b =>
      simp only [hedged_stoppedInsight, not_raises_ok, not_false_eq_true, true_and]
      rw [addVolumes_incomplete hsum, Bool.false_or, List.any_eq_true]

end Storage

namespace StoppedStorage

open Storage

/-! ## A scan of one region -/

/-- What the correlation pass over a region is given. -/
structure RegionScan where
  volumes : Option (List Item)
  snapshots : List Item
  instances : List Item
  accountId : Uuid
  correlatedAt : Micros

/-- The facts of an instance after the scan, in whatever order they are read. -/
def RegionScan.FactsOf (scan : RegionScan) (inst : Item) (observedAt : Micros)
    (facts : List Fact) : Prop :=
  ∀ f, f ∈ facts ↔ f ∈ instanceToFacts inst.1 scan.accountId inst.2 observedAt ∨
    (f ∈ correlationFacts scan.volumes scan.snapshots scan.instances scan.accountId
      scan.correlatedAt ∧ f.resourceId = some inst.1)

/-- The volumes of the instance's block devices that were seen. -/
def seenVolumes (volumes : List Item) (inst : Raw) : List Raw :=
  (blockDeviceVolumeIds inst).filterMap (lookupVolume volumes)

/-- Some volume was not seen; a job that did not run has seen none. -/
def isMissing (volumes : Option (List Item)) (inst : Raw) : Bool :=
  (blockDeviceVolumeIds inst).any fun v => (lookupVolume (volumes.getD []) v).isNone

/-- No type, one that the catalog does not have, or no size. -/
def volumeUnpriced (vol : Raw) : Bool := unpriced (vol.get "VolumeType") (vol.get "Size")

/-- A size that is no number, or too large a one for a float. -/
def sizeMalformed (vol : Raw) : Bool :=
  Py.isNumber (vol.get "Size") = false ∨ Py.isHuge (vol.get "Size") = true

/-- A volume of the instance is missing from the scan, or cannot be priced. -/
def Doubtful (volumes : Option (List Item)) (inst : Raw) : Prop :=
  isMissing volumes inst = true ∨
    ∃ vol ∈ seenVolumes (volumes.getD []) inst, volumeUnpriced vol = true ∨ sizeMalformed vol = true

/-- The rule stops before it reads the list of volumes. -/
def Gated (volumes : Option (List Item)) (inst : Raw) : Prop :=
  knownOrUnknown (inst.get "_region") ≠ .known ∨ volumes = none

/-- No seen volume has a size that makes the rule raise, and where a volume was not seen, another
one that was seen has no price. -/
def Vouched (volumes : List Item) (inst : Raw) : Prop :=
  (∀ vol ∈ seenVolumes volumes inst, volumeUnpriced vol = true ∨ sizeMalformed vol = false) ∧
    (isMissing (some volumes) inst = false ∨
      ∃ vol ∈ seenVolumes volumes inst, volumeUnpriced vol = true)

instance (volumes : Option (List Item)) (inst : Raw) : Decidable (Doubtful volumes inst) := by
  unfold Doubtful
  infer_instance

instance (volumes : List Item) (inst : Raw) : Decidable (Vouched volumes inst) := by
  unfold Vouched
  infer_instance

/-! ## The list of attached volumes -/

def attachedEntry (volumeId : Json) (vol : Raw) : List (String × Json) :=
  [("volume_id", volumeId), ("size_gb", vol.get "Size"), ("volume_type", vol.get "VolumeType")]

def attachedEntries (volumes : List Item) (inst : Raw) : List (List (String × Json)) :=
  (blockDeviceVolumeIds inst).filterMap fun v => (lookupVolume volumes v).map (attachedEntry v)

theorem attachedVolumes_eq (volumes : List Item) (inst : Raw) :
    Ec2.attachedVolumes volumes inst = (attachedEntries volumes inst).map .obj := by
  simp only [Ec2.attachedVolumes, attachedEntries, List.map_filterMap, Option.map_map]
  rfl

theorem mem_attachedEntries {volumes : List Item} {inst : Raw} {entry : List (String × Json)} :
    entry ∈ attachedEntries volumes inst ↔ ∃ v ∈ blockDeviceVolumeIds inst,
      ∃ vol, lookupVolume volumes v = some vol ∧ attachedEntry v vol = entry := by
  simp [attachedEntries, List.mem_filterMap]

theorem mem_seenVolumes {volumes : List Item} {inst vol : Raw} :
    vol ∈ seenVolumes volumes inst ↔
      ∃ v ∈ blockDeviceVolumeIds inst, lookupVolume volumes v = some vol := by
  simp [seenVolumes, List.mem_filterMap]

theorem volumeTrips_attachedEntry (v : Json) (vol : Raw) :
    volumeTrips (attachedEntry v vol) = (!volumeUnpriced vol && sizeMalformed vol) := by
  have hkind : (Json.get? (attachedEntry v vol) "volume_type").getD .null = vol.get "VolumeType" :=
    rfl
  have hsize : (Json.get? (attachedEntry v vol) "size_gb").getD .null = vol.get "Size" := rfl
  rw [Bool.eq_iff_iff]
  simp [volumeTrips, volumeUnpriced, unpriced, sizeMalformed, hkind, hsize, and_assoc]

/-- No entry makes the rule raise exactly when no seen volume does. -/
theorem entries_trip {volumes : List Item} {inst : Raw} :
    (∀ e ∈ attachedEntries volumes inst, volumeTrips e = false) ↔
      ∀ vol ∈ seenVolumes volumes inst, volumeUnpriced vol = true ∨ sizeMalformed vol = false := by
  constructor
  · intro h vol hvol
    obtain ⟨v, hv, hlookup⟩ := mem_seenVolumes.1 hvol
    have htrips := h _ (mem_attachedEntries.2 ⟨v, hv, vol, hlookup, rfl⟩)
    rw [volumeTrips_attachedEntry] at htrips
    cases hunpriced : volumeUnpriced vol
    · exact .inr (by simpa [hunpriced] using htrips)
    · exact .inl rfl
  · intro h e he
    obtain ⟨v, hv, vol, hlookup, rfl⟩ := mem_attachedEntries.1 he
    rw [volumeTrips_attachedEntry]
    rcases h vol (mem_seenVolumes.2 ⟨v, hv, hlookup⟩) with hvol | hvol <;> simp [hvol]

theorem entries_unpriced {volumes : List Item} {inst : Raw} :
    (∃ e ∈ attachedEntries volumes inst, entryUnpriced e = true) ↔
      ∃ vol ∈ seenVolumes volumes inst, volumeUnpriced vol = true := by
  constructor
  · rintro ⟨e, he, hunpriced⟩
    obtain ⟨v, hv, vol, hlookup, rfl⟩ := mem_attachedEntries.1 he
    exact ⟨vol, mem_seenVolumes.2 ⟨v, hv, hlookup⟩, hunpriced⟩
  · rintro ⟨vol, hvol, hunpriced⟩
    obtain ⟨v, hv, hlookup⟩ := mem_seenVolumes.1 hvol
    exact ⟨_, mem_attachedEntries.2 ⟨v, hv, vol, hlookup, rfl⟩, hunpriced⟩

/-! ## The facts of an instance -/

theorem dotted_instanceToFacts (id accountId : Uuid) (inst : Raw) (observedAt : Micros) :
    (instanceToFacts id accountId inst observedAt).map Fact.dotted =
      ["aws.ec2.instance.state", "aws.ec2.instance.instance_type", "aws.ec2.instance.launch_time",
        "aws.ec2.instance.block_device_volume_ids", "aws.ec2.instance.region"] := by
  simp [instanceToFacts, makeFact, Fact.dotted]

/-- A correlated fact is about a snapshot, or lists the volumes of a stopped instance. -/
theorem mem_correlationFacts {volumes : Option (List Item)} {snapshots instances : List Item}
    {accountId : Uuid} {at_ : Micros} {f : Fact}
    (h : f ∈ correlationFacts volumes snapshots instances accountId at_) :
    f.dotted = "aws.ec2.snapshot.volume_exists" ∨ ∃ vs, volumes = some vs ∧
      ∃ x ∈ instances, f = attachedVolumesFact vs accountId at_ x := by
  cases volumes with
  | none => cases h
  | some vs =>
    simp only [correlationFacts, List.mem_append, List.mem_map, List.mem_filter] at h
    rcases h with ⟨x, _, rfl⟩ | ⟨x, ⟨hx, _⟩, rfl⟩
    · exact .inl (by simp [volumeExistsFact, makeFact, Fact.dotted])
    · exact .inr ⟨vs, rfl, x, hx, rfl⟩

theorem dotted_attachedVolumesFact (volumes : List Item) (accountId : Uuid) (at_ : Micros)
    (x : Item) :
    (attachedVolumesFact volumes accountId at_ x).dotted = "aws.ec2.instance.attached_volumes" := by
  simp [attachedVolumesFact, makeFact, Fact.dotted]

namespace RegionScan.FactsOf

variable {scan : RegionScan} {inst : Item} {observedAt : Micros} {facts : List Fact}

/-- The rule finds each fact of the instance under its key. -/
theorem get?_direct (h : scan.FactsOf inst observedAt facts) {f : Fact}
    (hf : f ∈ instanceToFacts inst.1 scan.accountId inst.2 observedAt) :
    (indexFacts facts).get? f.dotted = some f := by
  have hkeys := dotted_instanceToFacts inst.1 scan.accountId inst.2 observedAt
  have hmem := hkeys ▸ List.mem_map_of_mem hf
  refine get?_indexFacts ((h f).2 (.inl hf)) fun g hg hdotted => ?_
  rcases (h g).1 hg with hg | ⟨hg, _⟩
  · have hnodup : ((instanceToFacts inst.1 scan.accountId inst.2 observedAt).map
        Fact.dotted).Nodup := by rw [hkeys]; decide
    exact List.inj_on_of_nodup_map hnodup hg hf hdotted
  · rw [← hdotted] at hmem
    rcases mem_correlationFacts hg with hexists | ⟨vs, _, x, _, rfl⟩
    · simp [hexists] at hmem
    · simp [dotted_attachedVolumesFact] at hmem

/-- A fact read off the instance is KNOWN when the instance has the field. -/
theorem known_direct (h : scan.FactsOf inst observedAt facts) (key : String) (value : Json)
    (hf : makeFact "aws.ec2.instance" sourceName scan.accountId observedAt inst.1 key value
      (knownOrUnknown value) ∈ instanceToFacts inst.1 scan.accountId inst.2 observedAt) :
    (indexFacts facts).known ("aws.ec2.instance" ++ "." ++ key) =
      if knownOrUnknown value = .known then some (makeFact "aws.ec2.instance" sourceName
        scan.accountId observedAt inst.1 key value .known) else none := by
  have hget : (indexFacts facts).get? ("aws.ec2.instance" ++ "." ++ key) = _ := h.get?_direct hf
  rw [FactIndex.known, hget, Option.filter_some]
  by_cases hknown : knownOrUnknown value = .known <;> simp [makeFact, hknown]

theorem known_state (h : scan.FactsOf inst observedAt facts)
    (hstopped : instanceState inst.2 = .str stoppedState) :
    ∃ state, (indexFacts facts).known "aws.ec2.instance.state" = some state ∧
      state.value = .str stoppedState := by
  have hknown : knownOrUnknown (instanceState inst.2) = .known := by rw [hstopped]; rfl
  have hstate := h.known_direct "state" (instanceState inst.2) (by simp [instanceToFacts])
  rw [if_pos hknown] at hstate
  exact ⟨_, hstate, hstopped⟩

theorem known_region (h : scan.FactsOf inst observedAt facts) :
    (indexFacts facts).known "aws.ec2.instance.region" =
      if knownOrUnknown (inst.2.get "_region") = .known then some (makeFact "aws.ec2.instance"
        sourceName scan.accountId observedAt inst.1 "region" (inst.2.get "_region") .known)
      else none :=
  h.known_direct "region" (inst.2.get "_region") (by simp [instanceToFacts])

theorem get?_attachedVolumes (h : scan.FactsOf inst observedAt facts) {volumes : List Item}
    (hvolumes : scan.volumes = some volumes) (hinst : inst ∈ scan.instances)
    (hone : ∀ x ∈ scan.instances, x.1 = inst.1 → x = inst)
    (hstopped : instanceState inst.2 = .str stoppedState) :
    (indexFacts facts).get? "aws.ec2.instance.attached_volumes" =
      some (attachedVolumesFact volumes scan.accountId scan.correlatedAt inst) := by
  have hdotted := dotted_attachedVolumesFact volumes scan.accountId scan.correlatedAt inst
  rw [← hdotted]
  refine get?_indexFacts ((h _).2 (.inr ⟨?_, rfl⟩)) fun g hg hkey => ?_
  · rw [hvolumes, correlationFacts]
    refine List.mem_append_right _ (List.mem_map.2 ⟨inst, List.mem_filter.2 ⟨hinst, ?_⟩, rfl⟩)
    simp [hstopped, stoppedState]
  · rw [hdotted] at hkey
    rcases (h g).1 hg with hg | ⟨hg, hid⟩
    · have hmem := dotted_instanceToFacts inst.1 scan.accountId inst.2 observedAt ▸
        List.mem_map_of_mem hg
      simp [hkey] at hmem
    · rcases mem_correlationFacts hg with hexists | ⟨vs, hvs, x, hx, rfl⟩
      · simp [hkey] at hexists
      · have hx' : x = inst := hone x hx (Option.some.inj hid)
        have hvs' : vs = volumes := Option.some.inj (hvs.symm.trans hvolumes)
        rw [hx', hvs']

/-- Without the region's volumes there is no list of attached ones. -/
theorem get?_attachedVolumes_none (h : scan.FactsOf inst observedAt facts)
    (hvolumes : scan.volumes = none) :
    (indexFacts facts).get? "aws.ec2.instance.attached_volumes" = none := by
  refine get?_indexFacts_none fun f hf hkey => ?_
  rcases (h f).1 hf with hf | ⟨hf, _⟩
  · have hmem := dotted_instanceToFacts inst.1 scan.accountId inst.2 observedAt ▸
      List.mem_map_of_mem hf
    simp [hkey] at hmem
  · rw [hvolumes] at hf
    cases hf

end RegionScan.FactsOf

/-! ## When a doubtful instance is hedged -/

section

variable {scan : RegionScan} {inst : Item} {observedAt : Micros} {facts : List Fact}

theorem gated_hedged (h : scan.FactsOf inst observedAt facts)
    (hstopped : instanceState inst.2 = .str stoppedState) (hgated : Gated scan.volumes inst.2)
    (today : Date) : Hedged (evaluateStopped .double inst.1 facts today) := by
  obtain ⟨state, hstate, hvalue⟩ := h.known_state hstopped
  have hregion := h.known_region
  simp only [evaluateStopped, hstate, hvalue, ne_eq, not_true_eq_false, if_false]
  by_cases hknown : knownOrUnknown (inst.2.get "_region") = .known
  · have hvolumes : scan.volumes = none := by
      rcases hgated with hunknown | hnone
      · exact absurd hknown hunknown
      · exact hnone
    rw [if_pos hknown] at hregion
    simp only [hregion, h.get?_attachedVolumes_none hvolumes]
    exact hedged_inconclusive (by simp)
  · rw [if_neg hknown] at hregion
    simp only [hregion]
    exact hedged_inconclusive (by simp)

theorem priced_hedged_iff (h : scan.FactsOf inst observedAt facts)
    (hinst : inst ∈ scan.instances) (hone : ∀ x ∈ scan.instances, x.1 = inst.1 → x = inst)
    (hstopped : instanceState inst.2 = .str stoppedState)
    (hknown : knownOrUnknown (inst.2.get "_region") = .known) {volumes : List Item}
    (hvolumes : scan.volumes = some volumes) (today : Date) :
    Hedged (evaluateStopped .double inst.1 facts today) ↔
      (∀ vol ∈ seenVolumes volumes inst.2, volumeUnpriced vol = true ∨ sizeMalformed vol = false) ∧
        ∃ vol ∈ seenVolumes volumes inst.2, volumeUnpriced vol = true := by
  obtain ⟨state, hstate, hvalue⟩ := h.known_state hstopped
  have hregion := h.known_region
  rw [if_pos hknown] at hregion
  rw [← entries_trip, ← entries_unpriced]
  exact evaluateStopped_hedged hstate hvalue hregion
    (h.get?_attachedVolumes hvolumes hinst hone hstopped)
    (congrArg Json.list (attachedVolumes_eq volumes inst.2))

/-- A stopped instance with a doubtful volume is hedged exactly when the rule stops before it reads
the list of volumes, or the volumes that were seen vouch for the others. -/
theorem doubtful_hedged_iff (h : scan.FactsOf inst observedAt facts)
    (hinst : inst ∈ scan.instances) (hone : ∀ x ∈ scan.instances, x.1 = inst.1 → x = inst)
    (today : Date) :
    (instanceState inst.2 = .str stoppedState → Doubtful scan.volumes inst.2 →
        Hedged (evaluateStopped .double inst.1 facts today)) ↔
      (instanceState inst.2 = .str stoppedState → Gated scan.volumes inst.2 ∨
        ∀ volumes, scan.volumes = some volumes → Vouched volumes inst.2) := by
  refine forall_congr' fun hstopped => ?_
  by_cases hgated : Gated scan.volumes inst.2
  · exact iff_of_true (fun _ => gated_hedged h hstopped hgated today) (.inl hgated)
  · rw [or_iff_right hgated]
    obtain ⟨hknown, hsome⟩ := not_or.1 hgated
    obtain ⟨volumes, hvolumes⟩ := Option.ne_none_iff_exists'.1 hsome
    rw [priced_hedged_iff h hinst hone hstopped (not_not.1 hknown) hvolumes, hvolumes]
    simp only [Doubtful, Vouched, Option.getD_some, Option.some.injEq, forall_eq']
    constructor
    · intro hdoubt
      cases hmissing : isMissing (some volumes) inst.2
      · refine ⟨fun vol hvol => ?_, .inl rfl⟩
        by_contra hbad
        rw [not_or, Bool.not_eq_false] at hbad
        obtain ⟨hnone, _⟩ := hdoubt (.inr ⟨vol, hvol, .inr hbad.2⟩)
        rcases hnone vol hvol with hunpriced | hsize
        · exact hbad.1 hunpriced
        · simp [hbad.2] at hsize
      · obtain ⟨hnone, hunpriced⟩ := hdoubt (.inl hmissing)
        exact ⟨hnone, .inr hunpriced⟩
    · rintro ⟨hnone, hseen⟩ hdoubt
      refine ⟨hnone, ?_⟩
      rcases hseen with hseen | hunpriced
      · rcases hdoubt with hmissing | ⟨vol, hvol, hunpriced | hsize⟩
        · simp [hseen] at hmissing
        · exact ⟨vol, hvol, hunpriced⟩
        · rcases hnone vol hvol with hunpriced | hsize'
          · exact ⟨vol, hvol, hunpriced⟩
          · simp [hsize] at hsize'
      · exact hunpriced

end

/-! ## A volume that the scan did not see -/

def awsAccount : Uuid := 1

/-- A stopped instance with these EBS block devices. -/
def stoppedInstance (volumeIds : List String) : Item :=
  (2, [("InstanceId", .str "i-1"), ("State", .obj [("Name", .str "stopped")]),
    ("BlockDeviceMappings", .list (volumeIds.map fun v =>
      .obj [("DeviceName", .str "/dev/xvda"), ("Ebs", .obj [("VolumeId", .str v)])])),
    ("_region", .str "eu-west-1")])

def volumeOf (volumeId volumeType : String) : Item :=
  (3, [("VolumeId", .str volumeId), ("VolumeType", .str volumeType), ("Size", .int 100)])

def scanOf (volumes : List Item) (inst : Item) : RegionScan :=
  ⟨some volumes, [], [inst], awsAccount, 1⟩

def factsAfter (scan : RegionScan) (inst : Item) : List Fact :=
  instanceToFacts inst.1 scan.accountId inst.2 0 ++
    correlationFacts scan.volumes scan.snapshots scan.instances scan.accountId scan.correlatedAt

def evaluateAfter (volumes : List Item) (inst : Item) : Except PyError RuleResult :=
  evaluateStopped .double inst.1 (factsAfter (scanOf volumes inst) inst) ⟨739960⟩

theorem factsAfter_scan (volumes : List Item) (inst : Item) :
    (scanOf volumes inst).FactsOf inst 0 (factsAfter (scanOf volumes inst) inst) := by
  intro f
  have hid : f ∈ correlationFacts (some volumes) [] [inst] awsAccount 1 →
      f.resourceId = some inst.1 := by
    intro hf
    simp only [correlationFacts, List.map_nil, List.nil_append, List.mem_map, List.mem_filter,
      List.mem_singleton] at hf
    obtain ⟨x, ⟨rfl, _⟩, rfl⟩ := hf
    rfl
  rw [factsAfter, List.mem_append]
  exact or_congr_right (and_iff_left_of_imp hid).symm

/-- The only volume was not seen, and the rule says that there is nothing; one of two was not seen,
and the rule says that the amount of the other one is all. -/
theorem unseen_volumes_hidden :
    (Doubtful (some []) (stoppedInstance ["vol-1"]).2 ∧
      evaluateAfter [] (stoppedInstance ["vol-1"]) = .ok .noMatch ∧
      ¬ Hedged (evaluateAfter [] (stoppedInstance ["vol-1"]))) ∧
    (Doubtful (some [volumeOf "vol-1" "gp2"]) (stoppedInstance ["vol-1", "vol-2"]).2 ∧
      saysComplete (evaluateAfter [volumeOf "vol-1" "gp2"] (stoppedInstance ["vol-1", "vol-2"])) =
        true ∧
      ¬ Hedged (evaluateAfter [volumeOf "vol-1" "gp2"] (stoppedInstance ["vol-1", "vol-2"]))) := by
  have hnone : evaluateAfter [] (stoppedInstance ["vol-1"]) = .ok .noMatch := by decide +kernel
  have hone : saysComplete (evaluateAfter [volumeOf "vol-1" "gp2"]
      (stoppedInstance ["vol-1", "vol-2"])) = true := by decide +kernel
  exact ⟨⟨by decide +kernel, hnone, hnone ▸ not_hedged_noMatch⟩, by decide +kernel, hone,
    not_hedged_of_saysComplete hone⟩

/-- Next to a volume of a type without a price, the unseen one makes the amount incomplete. -/
theorem unseen_volume_flagged :
    Doubtful (some [volumeOf "vol-1" "io99"]) (stoppedInstance ["vol-1", "vol-2"]).2 ∧
      Hedged (evaluateAfter [volumeOf "vol-1" "io99"] (stoppedInstance ["vol-1", "vol-2"])) := by
  have hdoubtful : Doubtful (some [volumeOf "vol-1" "io99"])
      (stoppedInstance ["vol-1", "vol-2"]).2 := by decide +kernel
  refine ⟨hdoubtful, (doubtful_hedged_iff (factsAfter_scan _ _) (List.mem_singleton.2 rfl)
    (fun x hx _ => List.mem_singleton.1 hx) ⟨739960⟩).2 (fun _ => .inr ?_) rfl hdoubtful⟩
  intro volumes hvolumes
  cases hvolumes
  decide +kernel

end StoppedStorage

end Constat
