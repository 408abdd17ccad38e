import Mathlib.Algebra.Order.BigOperators.Group.List
import Constat.Py.Rounding
import Constat.Rules.Raises
import Constat.VolumeScan

/-!
# Savings

What the rules say can be saved on one EBS volume, in exact arithmetic: the saving of a migration to
gp3, the cost of the volume while it is unattached, and its line in the insight of every stopped
instance that lists it. Each rule prices the volume on its own, so the amounts may overlap.

* `volumePrice` — the monthly price of a volume from its own facts.
* `attributed` — the amounts the emitted insights attribute to it.
* `savings_bounded` — each amount is at most the price, and together they are at most the price
  exactly when there is at most one of them.
-/

namespace Constat

open Catalog Storage

namespace Catalog

/-- The rates of a grid are positive. -/
def PositiveRates (grid : List (String × List (String × Rat))) : Prop :=
  ∀ g ∈ grid, ∀ p ∈ g.2, 0 < p.2

theorem storage_positiveRates : PositiveRates storageGridUsd := by
  unfold PositiveRates
  decide +kernel

theorem gridPrice_rate {grid : List (String × List (String × Rat))} (hgrid : PositiveRates grid)
    {region kind : Json} {price : GbPrice}
    (h : gridPrice .exact grid region kind = .ok (some price)) :
    ∃ rate, price.usdPerGbMonth = .finite rate ∧ 0 < rate := by
  unfold gridPrice at h
  split at h
  · cases h
  · cases h
  · split at h
    · obtain ⟨rate, hrate, rfl⟩ := Option.map_eq_some_iff.1 (Except.ok.inj h)
      obtain ⟨rates, hrates, hrate⟩ := Option.bind_eq_some_iff.1 hrate
      exact ⟨rate, rfl, hgrid _ (find_some hrates) _ (find_some hrate)⟩
    · cases h

theorem ebsPrice_rate {kind region : Json} {price : GbPrice}
    (h : ebsPricePerGbMonth .exact kind region = .ok (some price)) :
    ∃ rate, price.usdPerGbMonth = .finite rate ∧ 0 < rate := by
  simp only [ebsPricePerGbMonth, pricePerGbMonth] at h
  split at h
  · exact gridPrice_rate storage_positiveRates h
  · split at h
    · exact gridPrice_rate storage_positiveRates h
    · exact gridPrice_rate storage_positiveRates h

/-- A lookup of two kinds with a price in every region reads the rates of one region. -/
theorem ebsPrice_region {kind kind' : String}
    (hkinds : ∀ g ∈ storageGridUsd, (find g.2 kind).isSome ∧ (find g.2 kind').isSome)
    {region : Json} {price price' : GbPrice}
    (h : ebsPricePerGbMonth .exact (.str kind) region = .ok (some price))
    (h' : ebsPricePerGbMonth .exact (.str kind') region = .ok (some price')) :
    ∃ g ∈ storageGridUsd, ∃ rate rate', find g.2 kind = some rate ∧ find g.2 kind' = some rate' ∧
      price.usdPerGbMonth = .finite rate ∧ price'.usdPerGbMonth = .finite rate' := by
  have hgrid : ∀ {r kind : String} {price : GbPrice},
      gridPrice .exact storageGridUsd (.str r) (.str kind) = .ok (some price) →
        ∃ rates rate, find storageGridUsd r = some rates ∧ find rates kind = some rate ∧
          price.usdPerGbMonth = .finite rate := by
    intro r kind price hprice
    obtain ⟨rate, hrate, rfl⟩ := Option.map_eq_some_iff.1 (Except.ok.inj hprice)
    obtain ⟨rates, hrates, hrate⟩ := Option.bind_eq_some_iff.1 hrate
    exact ⟨rates, rate, hrates, hrate, rfl⟩
  have hboth : ∀ r : String,
      gridPrice .exact storageGridUsd (.str r) (.str kind) = .ok (some price) →
      gridPrice .exact storageGridUsd (.str r) (.str kind') = .ok (some price') →
      ∃ g ∈ storageGridUsd, ∃ rate rate', find g.2 kind = some rate ∧ find g.2 kind' = some rate' ∧
        price.usdPerGbMonth = .finite rate ∧ price'.usdPerGbMonth = .finite rate' := by
    intro r hprice hprice'
    obtain ⟨rates, rate, hrates, hfind, hrate⟩ := hgrid hprice
    obtain ⟨rates', rate', hrates', hfind', hrate'⟩ := hgrid hprice'
    obtain rfl : rates = rates' := Option.some.inj (hrates.symm.trans hrates')
    exact ⟨(r, rates), find_some hrates, rate, rate', hfind, hfind', hrate, hrate'⟩
  have hdefault := hboth ebsDefaultRegion
  simp only [ebsPricePerGbMonth, pricePerGbMonth] at h h'
  cases region with
  | str r =>
    simp only [reduceCtorEq, if_false] at h h'
    cases hregion : find storageGridUsd r with
    | none =>
      have hnone : ∀ kind, gridPrice .exact storageGridUsd (.str r) (.str kind) = .ok none := by
        intro kind
        simp [gridPrice, Py.unhashable, hregion]
      rw [hnone] at h h'
      exact hdefault h h'
    | some rates =>
      have hsome : ∀ kind, (find rates kind).isSome →
          ∃ price, gridPrice .exact storageGridUsd (.str r) (.str kind) = .ok (some price) := by
        intro kind hkind
        obtain ⟨rate, hrate⟩ := Option.isSome_iff_exists.1 hkind
        exact ⟨⟨Arith.exact.lit rate, r⟩, by simp [gridPrice, Py.unhashable, hregion, hrate]⟩
      obtain ⟨hkind, hkind'⟩ := hkinds (r, rates) (find_some hregion)
      obtain ⟨p, hp⟩ := hsome kind hkind
      obtain ⟨p', hp'⟩ := hsome kind' hkind'
      rw [hp] at h
      rw [hp'] at h'
      exact hboth r (hp.trans h) (hp'.trans h')
  | null => exact hdefault h h'
  | list xs => cases h
  | obj fields => cases h
  | _ => exact hdefault h h'

/-- gp3 is cheaper than gp2 in every region. -/
theorem gp3_cheaper {region : Json} {gp2 gp3 : GbPrice}
    (h : ebsPricePerGbMonth .exact (.str "gp2") region = .ok (some gp2))
    (h' : ebsPricePerGbMonth .exact (.str "gp3") region = .ok (some gp3)) :
    ∃ rate rate', gp2.usdPerGbMonth = .finite rate ∧ gp3.usdPerGbMonth = .finite rate' ∧
      0 < rate' ∧ rate' < rate := by
  have hkinds : ∀ g ∈ storageGridUsd, (find g.2 "gp2").isSome ∧ (find g.2 "gp3").isSome := by
    decide +kernel
  have hcheaper : ∀ g ∈ storageGridUsd, ∀ rate ∈ find g.2 "gp2", ∀ rate' ∈ find g.2 "gp3",
      0 < rate' ∧ rate' < rate := by decide +kernel
  obtain ⟨g, hg, rate, rate', hfind, hfind', hrate, hrate'⟩ := ebsPrice_region hkinds h h'
  exact ⟨rate, rate', hrate, hrate', hcheaper g hg rate hfind rate' hfind'⟩

end Catalog

namespace Savings

/-! ## Prices -/

/-- The monthly price of `size` GB of `kind` in `region`, when there is one. -/
def storagePrice (kind region size : Json) : Option Rat :=
  match Py.int size, ebsPricePerGbMonth .exact kind region with
  | .ok n, .ok (some price) =>
    match price.usdPerGbMonth with
    | .finite rate => some (rate * n)
    | _ => none
  | _, _ => none

def volumeKeys : List String :=
  ["aws.ec2.volume.volume_type", "aws.ec2.volume.size_gb", "aws.ec2.volume.region"]

/-- The monthly price of a volume with these facts. -/
def volumePrice (idx : FactIndex) : Option Rat :=
  if idx.missing volumeKeys = [] then
    storagePrice (idx.value "aws.ec2.volume.volume_type") (idx.value "aws.ec2.volume.region")
      (idx.value "aws.ec2.volume.size_gb")
  else none

/-- The price of a volume as a stopped instance lists it. -/
def listedPrice (region : String) (vol : List (String × Json)) : Option Rat :=
  let field := fun k => (Json.get? vol k).getD .null
  if field "volume_type" = .null ∨ field "size_gb" = .null then none
  else storagePrice (.str (Py.str (field "volume_type"))) (.str region) (field "size_gb")

theorem storagePrice_eq {kind region size : Json} {n : Int} {price : GbPrice} {rate : Rat}
    (hsize : Py.int size = .ok n) (hprice : ebsPricePerGbMonth .exact kind region = .ok (some price))
    (hrate : price.usdPerGbMonth = .finite rate) : storagePrice kind region size = some (rate * n) := by
  simp [storagePrice, hsize, hprice, hrate]

theorem monthlyFor_exact (rate : Rat) (n : Int) :
    monthlyFor .exact (.finite rate) n = .ok (.finite (cents (rate * n))) := by
  have hfit : Arith.exact.ofInt n = .ok (.finite n) := rfl
  have hmul : Arith.exact.mul (.finite rate) (.finite n) = .finite (rate * n) := rfl
  rw [monthlyFor, hfit]
  simp only [hmul, round_exact]

/-! ## Amounts -/

def finite? : PyFloat → Option Rat
  | .finite q => some q
  | _ => none

/-- The monthly amounts of the insights a rule emits for a resource. -/
def amounts (t : Store) (env : Runner.RunEnv) (rule : ResourceRule) (x : Resource) : List Rat :=
  (Runner.emitted t rule env x).filterMap fun i =>
    (InsightEvents.monthlyCost .exact rule.name i.payload).bind finite?

def amountOf : Json → Option Rat
  | .float monthly => finite? monthly
  | _ => none

/-- The amount of a line about the volume `volumeId`. -/
def lineAmount (volumeId : String) : Json → Option Rat
  | .obj fields =>
    if Json.get? fields "volume_id" = some (.str volumeId) then
      (Json.get? fields "monthly_usd").bind amountOf
    else none
  | _ => none

def volumeLines (i : Insight) : List Json :=
  match Json.get? i.payload "volumes" with
  | some (.list lines) => lines
  | _ => []

/-- The shares of a volume in the insights about stopped instances. -/
def shares (t : Store) (env : Runner.RunEnv) (volumeId : String) : List Rat :=
  t.resources.rows.flatMap fun y =>
    (Runner.emitted t (Storage.stopped .exact) env y).flatMap fun i =>
      (volumeLines i).filterMap (lineAmount volumeId)

def gp2Rule : ResourceRule := Storage.rule .exact ebsGp2ToGp3

def unattachedRule : ResourceRule := Storage.rule .exact ebsUnattached

/-- All that the emitted insights attribute to a volume. -/
def attributed (t : Store) (env : Runner.RunEnv) (x : Resource) : List Rat :=
  amounts t env gp2Rule x ++ amounts t env unattachedRule x ++ shares t env x.nativeId

/-! ## The rules about volumes -/

theorem volumePrice_of_missing {idx : FactIndex} {keys : List String}
    (h : idx.missing keys = []) (hkeys : ∀ key ∈ volumeKeys, key ∈ keys) :
    volumePrice idx = storagePrice (idx.value "aws.ec2.volume.volume_type")
      (idx.value "aws.ec2.volume.region") (idx.value "aws.ec2.volume.size_gb") := by
  have hmissing : idx.missing volumeKeys = [] := by
    refine List.filter_eq_nil_iff.2 fun key hkey => ?_
    exact (List.filter_eq_nil_iff.1 h) key (hkeys key hkey)
  rw [volumePrice, if_pos hmissing]

theorem intFact_ok {idx : FactIndex} {key : String} {n : Int} (h : intFact idx key = .ok n) :
    Py.int (idx.value key) = .ok n := by
  rw [intFact] at h
  split at h
  · rename_i hint; rw [hint]; exact congrArg _ (Except.ok.inj h)
  · split at h <;> cases h

/-- The pipeline ends in a gap when the cost of a candidate is known. -/
theorem gap_cost {fp : Arith} {config : StorageRuleConfig} {version : String} {id : Uuid}
    {facts : List Fact} {today : Date} {i : Insight}
    (h : evaluateStorage fp config version id facts today = .ok (.gap i)) :
    (indexFacts facts).missing config.requiredFacts = [] ∧
      config.shouldEmit (indexFacts facts) = .ok true ∧
        ∃ cost, config.computeCost fp (indexFacts facts) today = .ok (some cost) ∧
          i = makeInsight config id (indexFacts facts) version cost := by
  simp only [evaluateStorage] at h
  split at h
  · simp at h
  · rename_i hmissing
    split at h
    · simp at h
    · cases h
    · simp at h
    · rename_i hemit
      split at h
      · simp at h
      · cases h
      · simp at h
      · rename_i cost hcost
        refine ⟨not_not.1 hmissing, hemit, cost, hcost, ?_⟩
        simpa [RuleResult.gap] using h.symm

/-- A migration saves the difference of the two prices, and at least half a dollar. -/
theorem gp2_amount {version : String} {id : Uuid} {facts : List Fact} {today : Date} {i : Insight}
    (h : evaluateStorage .exact ebsGp2ToGp3 version id facts today = .ok (.gap i)) :
    ∃ p q, volumePrice (indexFacts facts) = some p ∧ 0 ≤ q ∧ 1 / 2 ≤ cents p - cents q ∧
      InsightEvents.monthlyCost .exact "ebs_gp2_to_gp3" i.payload =
        some (.finite (cents p - cents q)) := by
  obtain ⟨hmissing, hemit, cost, hcost, rfl⟩ := gap_cost h
  have hprice := volumePrice_of_missing hmissing (by simp [volumeKeys, ebsGp2ToGp3])
  have htype : (indexFacts facts).value "aws.ec2.volume.volume_type" = .str "gp2" := by
    simpa [ebsGp2ToGp3] using hemit
  rw [htype] at hprice
  have hcost' : gp2Cost .exact (indexFacts facts) = .ok (some cost) := hcost
  simp only [gp2Cost] at hcost'
  split at hcost'
  · cases hcost'
  · rename_i n hn
    split at hcost'
    · cases hcost'
    · cases hcost'
    · rename_i gp2 gp3 hgp2 hgp3
      obtain ⟨rate, rate', hrate, hrate', hpos, hcheaper⟩ := gp3_cheaper hgp2 hgp3
      rw [hrate, hrate', monthlyFor_exact, monthlyFor_exact] at hcost'
      have hsavings : Arith.exact.round 2 (Arith.exact.sub (.finite (cents (rate * n)))
          (.finite (cents (rate' * n)))) = .finite (cents (rate * n) - cents (rate' * n)) := by
        rw [← cents_sub, ← round_exact]
        rfl
      simp only [hsavings] at hcost'
      split at hcost'
      · cases hcost'
      · rename_i hlarge
        have hhalf : 1 / 2 ≤ cents (rate * n) - cents (rate' * n) := by
          simpa [PyFloat.lt, minSavingsUsdPerMonth] using hlarge
        -- a negative size would cost less as gp2 than as gp3
        have hsize : (0 : Rat) ≤ n := by
          by_contra hneg
          have hle : rate * n ≤ rate' * n :=
            mul_le_mul_of_nonpos_right hcheaper.le (le_of_lt (not_le.1 hneg))
          have hcents := cents_mono hle
          linarith
        refine ⟨rate * n, rate' * n, ?_, mul_nonneg hpos.le hsize, hhalf, ?_⟩
        · rw [hprice, storagePrice_eq (intFact_ok hn) hgp2 hrate]
        · cases hcost'
          simp [makeInsight, updateFields, Table.putRow, InsightEvents.monthlyCost,
            InsightEvents.monetaryKey, InsightEvents.monetaryKeys, Json.get?, InsightEvents.asFloat]
    · cases hcost'

theorem unattached_amount {version : String} {id : Uuid} {facts : List Fact} {today : Date}
    {i : Insight}
    (h : evaluateStorage .exact ebsUnattached version id facts today = .ok (.gap i)) :
    ∃ p, volumePrice (indexFacts facts) = some p ∧
      InsightEvents.monthlyCost .exact "ebs_unattached" i.payload = some (.finite (cents p)) := by
  obtain ⟨hmissing, hemit, cost, hcost, rfl⟩ := gap_cost h
  have hprice := volumePrice_of_missing hmissing (by simp [volumeKeys, ebsUnattached])
  have hcost' : unattachedCost .exact (indexFacts facts) = .ok (some cost) := hcost
  simp only [unattachedCost] at hcost'
  split at hcost'
  · cases hcost'
  · rename_i n hn
    split at hcost'
    · cases hcost'
    · cases hcost'
    · rename_i price hfound
      obtain ⟨rate, hrate, hpos⟩ := ebsPrice_rate hfound
      rw [hrate, monthlyFor_exact] at hcost'
      refine ⟨rate * n, ?_, ?_⟩
      · rw [hprice, storagePrice_eq (intFact_ok hn) hfound hrate]
      · cases hcost'
        simp [makeInsight, updateFields, Table.putRow, InsightEvents.monthlyCost,
          InsightEvents.monetaryKey, InsightEvents.monetaryKeys, Json.get?, InsightEvents.asFloat]

/-! ## The rule about instances -/

/-- What a listed volume adds to the shares of `volumeId`. -/
def listedAmount (volumeId region : String) (vol : List (String × Json)) : Option Rat :=
  if (Json.get? vol "volume_id").getD .null = .str volumeId then (listedPrice region vol).map cents
  else none

theorem addVolume_line (volumeId : String) {region : String} {b b' : Breakdown}
    {vol : List (String × Json)} (h : addVolume .exact region b vol = .ok b') :
    ∃ line, b'.lines = b.lines ++ [line] ∧
      lineAmount volumeId line = listedAmount volumeId region vol := by
  have hamount : ∀ id size kind monthly : Json, lineAmount volumeId (.obj
      [("volume_id", id), ("size_gb", size), ("volume_type", kind), ("monthly_usd", monthly)]) =
      if id = .str volumeId then amountOf monthly else none := by
    intro id size kind monthly
    by_cases hid : id = .str volumeId <;> simp [lineAmount, Json.get?, hid]
  simp only [addVolume] at h
  split at h
  · rename_i htype
    cases h
    exact ⟨_, rfl, by rw [hamount]; simp [listedAmount, listedPrice, htype, amountOf]⟩
  · rename_i htype
    split at h
    · cases h
    · rename_i hprice
      cases h
      refine ⟨_, rfl, ?_⟩
      rw [hamount]
      have hnone : storagePrice (.str (Py.str ((Json.get? vol "volume_type").getD .null)))
          (.str region) ((Json.get? vol "size_gb").getD .null) = none := by
        simp only [storagePrice, hprice]
        split <;> simp_all
      simp [listedAmount, listedPrice, htype, hnone, amountOf]
    · rename_i price hprice
      obtain ⟨rate, hrate, _⟩ := ebsPrice_rate hprice
      split at h
      · rename_i hsize
        cases h
        exact ⟨_, rfl, by rw [hamount]; simp [listedAmount, listedPrice, hsize, amountOf]⟩
      · rename_i hsize
        split at h
        · cases h
        · rename_i n hn
          rw [hrate, monthlyFor_exact] at h
          cases h
          refine ⟨_, rfl, ?_⟩
          rw [hamount]
          simp [listedAmount, listedPrice, htype, hsize, storagePrice_eq hn hprice hrate, amountOf,
            finite?]

theorem addVolumes_lines {region volumeId : String} {attached : List (List (String × Json))}
    {b b' : Breakdown} (h : attached.foldlM (addVolume .exact region) b = .ok b') :
    b'.lines.filterMap (lineAmount volumeId) =
      b.lines.filterMap (lineAmount volumeId) ++ attached.filterMap (listedAmount volumeId region) := by
  induction attached generalizing b with
  | nil => cases h; simp
  | cons vol attached ih =>
    obtain ⟨b₁, hadd, hrest⟩ := Loop.foldlM_cons_ok.1 h
    obtain ⟨line, hlines, hamount⟩ := addVolume_line volumeId hadd
    rw [ih hrest, hlines, List.filterMap_append, List.append_assoc]
    simp only [List.filterMap_cons, List.filterMap_nil, hamount]
    cases listedAmount volumeId region vol <;> simp

/-- The volumes a resource lists when it is found stopped, with the region they are priced in. -/
def listings (idx : FactIndex) : List (String × List (String × Json)) :=
  match idx.known "aws.ec2.instance.region", idx.get? "aws.ec2.instance.attached_volumes" with
  | some region, some volumes =>
    ((dicts volumes.value).getD []).map fun vol => (Py.str region.value, vol)
  | _, _ => []

theorem stopped_lines {id : Uuid} {facts : List Fact} {today : Date} {i : Insight}
    (h : evaluateStopped .exact id facts today = .ok (.gap i)) (volumeId : String) :
    (volumeLines i).filterMap (lineAmount volumeId) =
      (listings (indexFacts facts)).filterMap fun l => listedAmount volumeId l.1 l.2 := by
  simp only [evaluateStopped] at h
  split at h
  · simp at h
  · split at h
    · simp at h
    · split at h
      · simp at h
      · rename_i region hregion
        split at h
        · simp at h
        · rename_i volumes hvolumes
          split at h
          · simp at h
          · simp at h
          · rename_i attached _ hdicts
            split at h
            · cases h
            · rename_i b hb
              have hlines : volumeLines i = b.lines := by
                simp only [RuleResult.gap, Except.ok.injEq, RuleResult.mk.injEq, List.cons.injEq,
                  and_true] at h
                rw [← h]
                rfl
              rw [hlines, addVolumes_lines hb]
              simp [listings, hregion, hvolumes, hdicts, List.filterMap_map]

/-! ## All the amounts of a volume -/

def factsIndex (t : Store) (x : Resource) : FactIndex := indexFacts (Runner.factsOf t x.id)

theorem mem_amounts {t : Store} {env : Runner.RunEnv} {rule : ResourceRule} {x : Resource} {a : Rat}
    (h : a ∈ amounts t env rule x) : ∃ i,
      rule.evaluate x.id (Runner.factsOf t x.id) env.today = .ok (.gap i) ∧
        InsightEvents.monthlyCost .exact rule.name i.payload = some (.finite a) := by
  obtain ⟨i, hi, ha⟩ := List.mem_filterMap.1 h
  obtain ⟨_, _, hgap⟩ := Runner.mem_emitted_iff.1 hi
  obtain ⟨monthly, hmonthly, hfinite⟩ := Option.bind_eq_some_iff.1 ha
  refine ⟨i, hgap, ?_⟩
  rw [hmonthly]
  cases monthly with
  | finite q => cases hfinite; rfl
  | inf neg => cases hfinite
  | nan => cases hfinite

theorem gp2_amounts {t : Store} {env : Runner.RunEnv} {x : Resource} {a : Rat}
    (h : a ∈ amounts t env gp2Rule x) : ∃ p, volumePrice (factsIndex t x) = some p ∧
      1 / 2 ≤ a ∧ a ≤ cents p := by
  obtain ⟨i, hgap, ha⟩ := mem_amounts h
  obtain ⟨p, q, hprice, hq, hhalf, hmonthly⟩ := gp2_amount hgap
  have hname : InsightEvents.monthlyCost .exact "ebs_gp2_to_gp3" i.payload = some (.finite a) := ha
  rw [hmonthly] at hname
  obtain rfl : cents p - cents q = a := PyFloat.finite.inj (Option.some.inj hname)
  have hnonneg := cents_nonneg hq
  exact ⟨p, hprice, hhalf, by linarith⟩

theorem unattached_amounts {t : Store} {env : Runner.RunEnv} {x : Resource} {a : Rat}
    (h : a ∈ amounts t env unattachedRule x) :
    ∃ p, volumePrice (factsIndex t x) = some p ∧ a = cents p := by
  obtain ⟨i, hgap, ha⟩ := mem_amounts h
  obtain ⟨p, hprice, hmonthly⟩ := unattached_amount hgap
  have hname : InsightEvents.monthlyCost .exact "ebs_unattached" i.payload = some (.finite a) := ha
  rw [hmonthly] at hname
  exact ⟨p, hprice, (PyFloat.finite.inj (Option.some.inj hname)).symm⟩

/-- A share is the price of the volume as some instance lists it. -/
theorem mem_shares {t : Store} {env : Runner.RunEnv} {volumeId : String} {a : Rat}
    (h : a ∈ shares t env volumeId) : ∃ y ∈ t.resources, ∃ l ∈ listings (factsIndex t y),
      (Json.get? l.2 "volume_id").getD .null = .str volumeId ∧
        ∃ q ∈ listedPrice l.1 l.2, a = cents q := by
  obtain ⟨y, hy, h⟩ := List.mem_flatMap.1 h
  obtain ⟨i, hi, h⟩ := List.mem_flatMap.1 h
  obtain ⟨_, _, hgap⟩ := Runner.mem_emitted_iff.1 hi
  have hstopped : evaluateStopped .exact y.id (Runner.factsOf t y.id) env.today = .ok (.gap i) := hgap
  rw [stopped_lines hstopped] at h
  obtain ⟨l, hl, ha⟩ := List.mem_filterMap.1 h
  rw [listedAmount] at ha
  split at ha
  · rename_i hid
    obtain ⟨q, hq, rfl⟩ := Option.map_eq_some_iff.1 ha
    exact ⟨y, hy, l, hl, hid, q, hq, rfl⟩
  · cases ha

/-- Stopped instances list the volume with the price its own facts give it. -/
def ListedAlike (t : Store) (x : Resource) (p : Rat) : Prop :=
  ∀ y ∈ t.resources, ∀ l ∈ listings (factsIndex t y),
    (Json.get? l.2 "volume_id").getD .null = .str x.nativeId → ∀ q ∈ listedPrice l.1 l.2, q = p

theorem shares_alike {t : Store} {env : Runner.RunEnv} {x : Resource} {p a : Rat}
    (halike : ListedAlike t x p) (h : a ∈ shares t env x.nativeId) : a = cents p := by
  obtain ⟨y, hy, l, hl, hid, q, hq, rfl⟩ := mem_shares h
  rw [halike y hy l hl hid q hq]

/-- At most one amount below the price, and any number of amounts of exactly the price. -/
theorem sum_le_iff {small full : List Rat} {p : Rat} (hone : small.length ≤ 1)
    (hsmall : ∀ a ∈ small, 0 < a ∧ a ≤ p) (hfull : ∀ a ∈ full, a = p) (hp : 0 < p) :
    (small ++ full).sum ≤ p ↔ (small ++ full).length ≤ 1 := by
  have hsum : full.sum = full.length * p := by
    rw [List.eq_replicate_of_mem hfull, List.sum_replicate, List.length_replicate, nsmul_eq_mul]
  rw [List.sum_append, List.length_append, hsum]
  have hcount : ∀ n : Nat, 2 ≤ n → 2 * p ≤ n * p := by
    intro n hn
    have hcast : (2 : Rat) ≤ n := by exact_mod_cast hn
    exact mul_le_mul_of_nonneg_right hcast hp.le
  match small, hone with
  | [], _ =>
    constructor
    · intro hle
      by_contra hmany
      have htwo := hcount full.length (by simp at hmany; omega)
      simp only [List.sum_nil, zero_add] at hle
      linarith
    · intro hle
      have hle' : (full.length : Rat) ≤ 1 := by exact_mod_cast (by simpa using hle : full.length ≤ 1)
      have := mul_le_mul_of_nonneg_right hle' hp.le
      simpa using this
  | [a], _ =>
    obtain ⟨hpos, hle⟩ := hsmall a List.mem_cons_self
    constructor
    · intro hsum
      by_contra hmany
      have hone : (1 : Rat) ≤ full.length := by
        rw [List.length_singleton] at hmany
        exact_mod_cast (by omega : 1 ≤ full.length)
      have := mul_le_mul_of_nonneg_right hone hp.le
      simp only [List.sum_cons, List.sum_nil, add_zero] at hsum
      linarith
    · intro hlen
      have hnone : full.length = 0 := by simp at hlen; simp [hlen]
      simpa [hnone] using hle

theorem sum_le_of_one {l : List Rat} {p : Rat} (hone : l.length ≤ 1) (hle : ∀ a ∈ l, a ≤ p)
    (hp : 0 ≤ p) : l.sum ≤ p := by
  match l, hone with
  | [], _ => simpa using hp
  | [a], _ => simpa using hle a List.mem_cons_self

/-- The volumes of the fleet that have a price. -/
def priced (t : Store) : List (Resource × Rat) :=
  t.resources.rows.filterMap fun x => (volumePrice (factsIndex t x)).map fun p => (x, p)

/-- One amount of a volume is at most its price. When stopped instances list the volume as its own
facts have it, the amounts together are at most the price exactly when there is at most one of them;
so a fleet without overlaps never saves more than it spends. -/
theorem savings_bounded (t : Store) (env : Runner.RunEnv) :
    (∀ x ∈ t.resources, ∀ p ∈ volumePrice (factsIndex t x),
      |cents p - p| ≤ 1 / 200 ∧ (∀ a ∈ amounts t env gp2Rule x, a ≤ cents p) ∧
        (∀ a ∈ amounts t env unattachedRule x, a = cents p) ∧
        (ListedAlike t x p → (∀ a ∈ shares t env x.nativeId, a = cents p) ∧
          (0 < cents p →
            ((attributed t env x).sum ≤ cents p ↔ (attributed t env x).length ≤ 1)))) ∧
      ((∀ v ∈ priced t, 0 ≤ v.2 ∧ ListedAlike t v.1 v.2 ∧ (attributed t env v.1).length ≤ 1) →
        ((priced t).map fun v => (attributed t env v.1).sum).sum ≤
          ((priced t).map fun v => cents v.2).sum) := by
  have hgp2 : ∀ x p, volumePrice (factsIndex t x) = some p →
      ∀ a ∈ amounts t env gp2Rule x, 0 < a ∧ a ≤ cents p := by
    intro x p hp a ha
    obtain ⟨p', hp', hhalf, hle⟩ := gp2_amounts ha
    obtain rfl : p = p' := Option.some.inj (hp.symm.trans hp')
    exact ⟨by linarith, hle⟩
  have hunattached : ∀ x p, volumePrice (factsIndex t x) = some p →
      ∀ a ∈ amounts t env unattachedRule x, a = cents p := by
    intro x p hp a ha
    obtain ⟨p', hp', rfl⟩ := unattached_amounts ha
    obtain rfl : p = p' := Option.some.inj (hp.symm.trans hp')
    rfl
  refine ⟨fun x _ p hp => ⟨abs_cents_sub p, fun a ha => (hgp2 x p hp a ha).2, hunattached x p hp,
    fun halike => ⟨fun a ha => shares_alike halike ha, fun hpos => ?_⟩⟩, fun hvolumes => ?_⟩
  · rw [attributed, List.append_assoc]
    refine sum_le_iff ?_ (hgp2 x p hp) (fun a ha => ?_) hpos
    · exact Nat.le_trans (List.length_filterMap_le _ _) (Runner.emitted_length_le t gp2Rule env x)
    · rcases List.mem_append.1 ha with ha | ha
      · exact hunattached x p hp a ha
      · exact shares_alike halike ha
  · refine List.sum_le_sum fun v hv => ?_
    obtain ⟨hnonneg, halike, hone⟩ := hvolumes v hv
    obtain ⟨x, _, hx⟩ := List.mem_filterMap.1 hv
    obtain ⟨p, hp, rfl⟩ := Option.map_eq_some_iff.1 hx
    refine sum_le_of_one hone (fun a ha => ?_) (cents_nonneg hnonneg)
    rcases List.mem_append.1 ha with ha | ha
    · rcases List.mem_append.1 ha with ha | ha
      · exact (hgp2 x p hp a ha).2
      · exact (hunattached x p hp a ha).le
    · exact (shares_alike halike ha).le

/-! ## An unattached gp2 volume -/

/-- 1000 GB of gp2 without a consumer, in a region the storage job scans. -/
def looseVolume : Raw :=
  [("VolumeId", .str "vol-1"), ("VolumeType", .str "gp2"), ("State", .str "available"),
    ("Size", .int 1000)]

def volumeScan : Collector.World where
  assumeRole := none
  job := fun _ j => {
    contended := false
    startedAt := History.tenthOfDecember
    items := if j = 0 then
      [⟨looseVolume, History.tenthOfDecember + 1, History.tenthOfDecember + 2⟩] else []
    ending := .completed
    finishedAt := History.tenthOfDecember + 3
    retiredAt := History.tenthOfDecember + 4 }
  correlatedAt := fun _ => History.tenthOfDecember + 5

def looseSeen : Store :=
  Collector.collectStep Runner.storageTarget Runner.scanOptions volumeScan .empty

def afterScan : Runner.RunEnv :=
  ⟨History.tenthOfDecember + 60 * Micros.second, ⟨739961⟩, some Runner.defaultScopeMaxAge⟩

/-- The volume costs 110 dollars, and 132 are said to be saved on it. -/
theorem loose_volume_overlaps :
    ∃ x ∈ looseSeen.resources, volumePrice (factsIndex looseSeen x) = some 110 ∧
      cents 110 < (attributed looseSeen afterScan x).sum := by
  decide +kernel

end Savings

end Constat
