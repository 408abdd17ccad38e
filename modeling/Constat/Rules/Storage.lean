import Constat.Catalog.Ebs
import Constat.Py.Isoformat
import Constat.Rules.Models

/-!
# Rules.Storage

`constat_core/insights/storage.py` and the storage rules. `evaluateStorage` gates on the required
facts, asks the rule whether the resource is a candidate, prices it and grades the amount; the
rule `ec2_stopped_with_storage` prices a list of volumes and has a pipeline of its own.

A `Stop` is what leaves the middle of the pipeline: a reason the shared code turns into
INCONCLUSIVE, or an exception nobody catches.
-/

namespace Constat

open Catalog

namespace Storage

inductive Stop where
  | inconclusive (reason : String)
  | raised (e : PyError)

def lift {α : Type} : Except PyError α → Except Stop α
  | .ok a => .ok a
  | .error e => .error (.raised e)

structure StorageCost where
  monthlyUsd : PyFloat
  monetaryPayloadKey : String
  pricingRegion : String
  priceRegionExact : Bool
  extras : List (String × Json)

structure StorageRuleConfig where
  ruleName : String
  requiredFacts : List String
  shouldEmit : FactIndex → Except Stop Bool
  computeCost : Arith → FactIndex → Date → Except Stop (Option StorageCost)
  buildTitle : StorageCost → String
  buildRecommendation : StorageCost → String

def criticalThreshold : PyFloat := .finite 500
def warningThreshold : PyFloat := .finite 50

def severityOf (monthly : PyFloat) : Severity :=
  if monthly.ge criticalThreshold then .critical
  else if monthly.ge warningThreshold then .warning
  else .info

def makeInsight (config : StorageRuleConfig) (resourceId : Uuid) (idx : FactIndex)
    (catalogVersion : String) (cost : StorageCost) : Insight :=
  let payload : List (String × Json) :=
    [(cost.monetaryPayloadKey, .float cost.monthlyUsd),
      ("value_basis", .str "ESTIMATED"),
      ("pricing_region", .str cost.pricingRegion),
      ("price_region_exact", .bool cost.priceRegionExact),
      ("source_currency", .str "USD"),
      ("recommendation", .str (config.buildRecommendation cost)),
      ("catalog_version", .str catalogVersion)]
  { ruleName := config.ruleName
    resourceId := some resourceId
    accountId := (config.requiredFacts.head?.bind idx.get?).bind (·.accountId)
    severity := severityOf cost.monthlyUsd
    title := config.buildTitle cost
    payload := updateFields payload cost.extras }

/-- The pipeline of the storage rules. -/
def evaluateStorage (fp : Arith) (config : StorageRuleConfig) (catalogVersion : String)
    (resourceId : Uuid) (facts : List Fact) (current : Date) : Except PyError RuleResult :=
  let idx := indexFacts facts
  let missing := idx.missing config.requiredFacts
  if missing ≠ [] then .ok (.inconclusive missing)
  else
    match config.shouldEmit idx with
    | .error (.inconclusive reason) => .ok (.inconclusive [reason])
    | .error (.raised e) => .error e
    | .ok false => .ok .noMatch
    | .ok true =>
      match config.computeCost fp idx current with
      | .error (.inconclusive reason) => .ok (.inconclusive [reason])
      | .error (.raised e) => .error e
      | .ok none => .ok .noMatch
      | .ok (some cost) => .ok (.gap (makeInsight config resourceId idx catalogVersion cost))

/-! ## Shared pieces of the rules -/

/-- `int(idx[key].value)`; a value that is no number is a reason, an infinite one raises. -/
def intFact (idx : FactIndex) (key : String) : Except Stop Int :=
  match Py.int (idx.value key) with
  | .ok i => .ok i
  | .error e =>
    if e.cls = "TypeError" ∨ e.cls = "ValueError" then .error (.inconclusive (key ++ ".malformed"))
    else .error (.raised e)

/-- `round(usd_per_gb_month * size_gb, 2)`. -/
def monthlyFor (fp : Arith) (rate : PyFloat) (sizeGb : Int) : Except PyError PyFloat :=
  match fp.ofInt sizeGb with
  | .ok size => .ok (fp.round 2 (fp.mul rate size))
  | .error e => .error e

def extra (cost : StorageCost) (key : String) : Json := (Json.get? cost.extras key).getD .null

/-- `f"{cost.extras[key]:.2f}"`. -/
def extraFixed2 (cost : StorageCost) (key : String) : String :=
  match extra cost key with
  | .float f => f.fixed2
  | value => Py.str value

/-! ## ebs_gp2_to_gp3 -/

def minSavingsUsdPerMonth : PyFloat := .finite (1 / 2)

def gp2Cost (fp : Arith) (idx : FactIndex) : Except Stop (Option StorageCost) :=
  let region := idx.value "aws.ec2.volume.region"
  match intFact idx "aws.ec2.volume.size_gb" with
  | .error stop => .error stop
  | .ok sizeGb =>
    match ebsPricePerGbMonth fp (.str "gp2") region, ebsPricePerGbMonth fp (.str "gp3") region with
    | .error e, _ => .error (.raised e)
    | _, .error e => .error (.raised e)
    | .ok (some gp2), .ok (some gp3) =>
      match monthlyFor fp gp2.usdPerGbMonth sizeGb, monthlyFor fp gp3.usdPerGbMonth sizeGb with
      | .error e, _ => .error (.raised e)
      | _, .error e => .error (.raised e)
      | .ok current, .ok target =>
        let savings := fp.round 2 (fp.sub current target)
        let percent := if PyFloat.lt (.finite 0) current then
          fp.round 1 (fp.div (fp.mul (.finite 100) savings) current) else .finite 0
        if savings.lt minSavingsUsdPerMonth then .ok none
        else .ok (some {
          monthlyUsd := savings
          monetaryPayloadKey := "savings_monthly_usd"
          pricingRegion := gp2.region
          priceRegionExact := priceRegionExact region gp2 && priceRegionExact region gp3
          extras :=
            [("volume_size_gb", .int sizeGb), ("current_volume_type", .str "gp2"),
              ("target_volume_type", .str "gp3"), ("current_monthly_usd", .float current),
              ("target_monthly_usd", .float target), ("savings_pct", .float percent)] })
    | _, _ => .error (.inconclusive "catalog.gp2_or_gp3_price_missing")

def ebsGp2ToGp3 : StorageRuleConfig where
  ruleName := "ebs_gp2_to_gp3"
  requiredFacts :=
    ["aws.ec2.volume.volume_type", "aws.ec2.volume.size_gb", "aws.ec2.volume.region"]
  shouldEmit idx := .ok (idx.value "aws.ec2.volume.volume_type" = .str "gp2")
  computeCost fp idx _ := gp2Cost fp idx
  buildTitle cost :=
    "EBS gp2 volume (" ++ Py.str (extra cost "volume_size_gb") ++ " GB) costs $" ++
      cost.monthlyUsd.fixed2 ++ "/month more than gp3"
  buildRecommendation cost :=
    "Migrate to gp3 (online, no downtime): $" ++ extraFixed2 cost "current_monthly_usd" ++
      "/month → $" ++ extraFixed2 cost "target_monthly_usd" ++
      "/month. Same API, no behavior change, ~20% storage saving."

/-! ## ebs_unattached -/

def unattachedState : String := "available"

def unattachedCost (fp : Arith) (idx : FactIndex) : Except Stop (Option StorageCost) :=
  let volumeType := idx.value "aws.ec2.volume.volume_type"
  let region := idx.value "aws.ec2.volume.region"
  match intFact idx "aws.ec2.volume.size_gb" with
  | .error stop => .error stop
  | .ok sizeGb =>
    match ebsPricePerGbMonth fp volumeType region with
    | .error e => .error (.raised e)
    | .ok none => .error (.inconclusive "catalog.volume_type_price_missing")
    | .ok (some price) =>
      match monthlyFor fp price.usdPerGbMonth sizeGb with
      | .error e => .error (.raised e)
      | .ok waste => .ok (some {
          monthlyUsd := waste
          monetaryPayloadKey := "monthly_waste_usd"
          pricingRegion := price.region
          priceRegionExact := priceRegionExact region price
          extras :=
            [("volume_size_gb", .int sizeGb), ("volume_type", volumeType),
              ("state", .str unattachedState)] })

def ebsUnattached : StorageRuleConfig where
  ruleName := "ebs_unattached"
  requiredFacts :=
    ["aws.ec2.volume.state", "aws.ec2.volume.size_gb", "aws.ec2.volume.volume_type",
      "aws.ec2.volume.region"]
  shouldEmit idx := .ok (idx.value "aws.ec2.volume.state" = .str unattachedState)
  computeCost fp idx _ := unattachedCost fp idx
  buildTitle cost :=
    "EBS " ++ Py.str (extra cost "volume_type") ++ " volume (" ++
      Py.str (extra cost "volume_size_gb") ++ " GB) is unattached, wasting $" ++
      cost.monthlyUsd.fixed2 ++ "/month"
  buildRecommendation _ :=
    "Delete the volume (after snapshotting if needed) — it has no consumer. Snapshot first: " ++
      "aws ec2 create-snapshot --volume-id <id>, then aws ec2 delete-volume --volume-id <id>."

/-! ## snapshot_orphan -/

def completedState : String := "completed"

def amiReferenceToken : String := "ami-"

/-- `AMI_REFERENCE_TOKEN in description.lower()`. -/
def referencesAmi : Json → Bool
  | .str description =>
    Py.contains amiReferenceToken.toList (description.toList.map Char.toLower)
  | _ => false

def snapshotShouldEmit (idx : FactIndex) : Except Stop Bool :=
  if idx.value "aws.ec2.snapshot.state" ≠ .str completedState then .ok false
  else
    match idx.value "aws.ec2.snapshot.volume_exists" with
    | .bool true => .ok false
    | .bool false => .ok !referencesAmi (idx.value "aws.ec2.snapshot.description")
    | _ => .error (.inconclusive "aws.ec2.snapshot.volume_exists.malformed")

/-- Days since the snapshot started; `none` is a start time that does not parse. -/
def ageDays (startTime : Json) (today : Date) : Option (Option Int) :=
  if !Py.truthy startTime then some none
  else
    match startTime with
    | .str s => (Date.ofIsoformat s).map fun d => some (today.daysSince d)
    | _ => none

/-- The storage tier: "standard" unless a KNOWN fact says otherwise. -/
def storageTier (idx : FactIndex) : String :=
  match idx.known "aws.ec2.snapshot.storage_tier" with
  | some f => if Py.truthy f.value then Py.str f.value else "standard"
  | none => "standard"

def snapshotCost (fp : Arith) (idx : FactIndex) (today : Date) :
    Except Stop (Option StorageCost) :=
  let tier := storageTier idx
  let region := idx.value "aws.ec2.snapshot.region"
  match intFact idx "aws.ec2.snapshot.size_gb" with
  | .error stop => .error stop
  | .ok sizeGb =>
    match ebsSnapshotPricePerGbMonth fp (.str tier) region with
    | .error e => .error (.raised e)
    | .ok none => .error (.inconclusive "catalog.snapshot_tier_price_missing")
    | .ok (some price) =>
      match monthlyFor fp price.usdPerGbMonth sizeGb with
      | .error e => .error (.raised e)
      | .ok cost =>
        match ageDays (idx.value "aws.ec2.snapshot.start_time") today with
        | none => .error (.inconclusive "aws.ec2.snapshot.start_time.malformed")
        | some age => .ok (some {
            monthlyUsd := cost
            monetaryPayloadKey := "orphan_snapshot_monthly_usd"
            pricingRegion := price.region
            priceRegionExact := priceRegionExact region price
            extras :=
              [("snapshot_size_gb", .int sizeGb), ("storage_tier", .str tier),
                ("snapshot_age_days", age.elim .null .int), ("state", .str completedState)] })

def ageLabel (cost : StorageCost) : String :=
  match extra cost "snapshot_age_days" with
  | .int days => toString days ++ " days old"
  | _ => "unknown age"

def snapshotOrphan : StorageRuleConfig where
  ruleName := "snapshot_orphan"
  requiredFacts :=
    ["aws.ec2.snapshot.state", "aws.ec2.snapshot.size_gb", "aws.ec2.snapshot.volume_exists",
      "aws.ec2.snapshot.description", "aws.ec2.snapshot.region"]
  shouldEmit := snapshotShouldEmit
  computeCost := snapshotCost
  buildTitle cost :=
    "EBS snapshot (" ++ Py.str (extra cost "snapshot_size_gb") ++ " GB, " ++ ageLabel cost ++
      ") is orphaned — its source volume no longer exists — costing $" ++
      cost.monthlyUsd.fixed2 ++ "/month"
  buildRecommendation _ :=
    "Delete the snapshot — its source volume is gone, so it cannot serve a restore of that " ++
      "volume. Verify it is not referenced by any backup policy or AMI first: aws ec2 " ++
      "describe-images --filters Name=block-device-mapping.snapshot-id,Values=<id>, then aws " ++
      "ec2 delete-snapshot --snapshot-id <id>."

/-! ## ec2_stopped_with_storage -/

def stoppedState : String := "stopped"

def stoppedRule : String := "ec2_stopped_with_storage"

/-- The sum so far, the grids that priced it, and the per-volume lines. -/
structure Breakdown where
  total : PyFloat
  pricingRegions : List String
  allExact : Bool
  incomplete : Bool
  lines : List Json

/-- One attached volume; a type or a size that is missing makes the amount incomplete. -/
def addVolume (fp : Arith) (region : String) (b : Breakdown) (vol : List (String × Json)) :
    Except PyError Breakdown :=
  let field := fun k => (Json.get? vol k).getD .null
  let volumeType := field "volume_type"
  let sizeGb := field "size_gb"
  let line := fun (monthly : Json) => Json.obj
    [("volume_id", field "volume_id"), ("size_gb", sizeGb), ("volume_type", volumeType),
      ("monthly_usd", monthly)]
  let unpriced := { b with incomplete := true, lines := b.lines ++ [line .null] }
  if volumeType = .null then .ok unpriced
  else
    match ebsPricePerGbMonth fp (.str (Py.str volumeType)) (.str region) with
    | .error e => .error e
    | .ok none => .ok unpriced
    | .ok (some price) =>
      if sizeGb = .null then .ok unpriced
      else
        match Py.int sizeGb with
        | .error e => .error e
        | .ok size =>
          match monthlyFor fp price.usdPerGbMonth size with
          | .error e => .error e
          | .ok monthly => .ok {
              total := fp.add b.total monthly
              pricingRegions := b.pricingRegions ++ [price.region]
              allExact := b.allExact && priceRegionExact (.str region) price
              incomplete := b.incomplete
              lines := b.lines ++ [line (.float monthly)] }

/-- The list of dicts a value is, if it is one. -/
def dicts : Json → Option (List (List (String × Json)))
  | .list xs => xs.mapM fun
    | .obj fields => some fields
    | _ => none
  | _ => none

def stoppedRecommendation : String :=
  "If the instance is decommissioned, snapshot the volumes (if the data matters), then " ++
    "terminate the instance with DeleteOnTermination or delete the volumes: aws ec2 " ++
    "delete-volume --volume-id <id>. If it restarts on a schedule, consider moving cold data " ++
    "to cheaper storage (sc1) or S3. Note: an associated Elastic IP also bills while the " ++
    "instance is stopped — not included here."

def stoppedInsight (resourceId : Uuid) (accountId : Option Uuid) (region : String) (total : PyFloat)
    (b : Breakdown) : Insight where
  ruleName := stoppedRule
  resourceId := some resourceId
  accountId := accountId
  severity := severityOf total
  title := "EC2 instance is stopped but " ++ toString b.lines.length ++
    " attached EBS volume(s) still cost $" ++ total.fixed2 ++ "/month"
  payload :=
    [("state", .str stoppedState), ("volume_count", .int b.lines.length),
      ("volumes", .list b.lines), ("stopped_storage_monthly_usd", .float total),
      ("pricing_incomplete", .bool b.incomplete), ("elastic_ip_cost_excluded", .bool true),
      ("value_basis", .str "ESTIMATED"),
      ("pricing_region", .str (b.pricingRegions.headD region)),
      ("price_region_exact", .bool b.allExact), ("source_currency", .str "USD"),
      ("recommendation", .str stoppedRecommendation), ("catalog_version", .str ebsVersion)]

/-- The rule reads `attached_volumes` whatever the state of that fact is. -/
def evaluateStopped (fp : Arith) (resourceId : Uuid) (facts : List Fact) (_ : Date) :
    Except PyError RuleResult :=
  let idx := indexFacts facts
  match idx.known "aws.ec2.instance.state" with
  | none => .ok (.inconclusive ["aws.ec2.instance.state"])
  | some state =>
    if state.value ≠ .str stoppedState then .ok .noMatch
    else
      match idx.known "aws.ec2.instance.region" with
      | none => .ok (.inconclusive ["aws.ec2.instance.region"])
      | some regionFact =>
        let region := Py.str regionFact.value
        match idx.get? "aws.ec2.instance.attached_volumes" with
        | none => .ok (.inconclusive ["aws.ec2.instance.attached_volumes"])
        | some volumes =>
          match dicts volumes.value with
          | none => .ok (.inconclusive ["aws.ec2.instance.attached_volumes.malformed"])
          | some [] => .ok .noMatch
          | some attached =>
            match attached.foldlM (addVolume fp region) ⟨.finite 0, [], true, false, []⟩ with
            | .error e => .error e
            | .ok b =>
              .ok (.gap (stoppedInsight resourceId state.accountId region (fp.round 2 b.total) b))

end Storage

end Constat
