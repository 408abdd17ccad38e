import Constat.CollectJobs
import Constat.Py.JsonRoundTrip
import Constat.UuidHex

/-!
# WorkItems

The JSON form of a work item: `WorkItem.to_dict` and `WorkItem.from_dict` of `collect_queue.py`, as
a message carries it. `from_dict` checks no field but the job id, so what it returns holds the values
of the message whatever they are.

* `decode_encode`  — an item comes back with an empty selection of resource types made none.
* `roundTrip_iff` — so it comes back as it was, and asks for the same jobs, exactly when its
                    selection is not the empty one.
-/

namespace Constat

namespace WorkItems

open Py CollectJobs

/-- `WorkItem(...)` of the values of a message. -/
structure Decoded where
  jobId : Uuid
  awsAccountId : Json
  region : Json
  roleArn : Json
  externalId : Json
  name : Json
  resourceTypes : Option (List Json)
  force : Bool
  dryRun : Bool
deriving DecidableEq

def optText (s : Option String) : Json := s.elim .null .str

def toDict (x : WorkItem) : Json :=
  .obj [("job_id", .str (Uuid.text x.jobId)), ("aws_account_id", .str x.awsAccountId),
    ("region", .str x.region), ("role_arn", optText x.roleArn),
    ("external_id", optText x.externalId), ("name", optText x.name),
    ("resource_types", (nonemptyList x.resourceTypes).elim .null fun l => .list (l.map .str)),
    ("force", .bool x.force), ("dry_run", .bool x.dryRun)]

/-- `data[key]`. -/
def item (data : Json) (key : String) : Except Exc Json :=
  match data with
  | .obj fields => (Json.get? fields key).elim (.error .keyError) .ok
  | _ => .error .typeError

/-- `data.get(key, default)`. -/
def getOr (data : Json) (key : String) (default : Json) : Except Exc Json :=
  match data with
  | .obj fields => .ok ((Json.get? fields key).getD default)
  | _ => .error .attributeError

/-- `UUID(value)`. -/
def uuidOf : Json → Except Exc Uuid
  | .str s => (Uuid.parse s).elim (.error .valueError) .ok
  | .null => .error .typeError
  | _ => .error .attributeError

/-- `tuple(value)`: the entries of a list, the characters of a text, the keys of a dict. -/
def tupleOf : Json → Except Exc (List Json)
  | .list xs => .ok xs
  | .str s => .ok (s.toList.map fun c => .str (String.ofList [c]))
  | .obj fields => .ok (fields.map fun p => .str p.1)
  | _ => .error .typeError

def resourceTypesOf (value : Json) : Except Exc (Option (List Json)) :=
  if truthy value then (tupleOf value).map some else .ok none

def fromDict (data : Json) : Except Exc Decoded := do
  let jobId ← item data "job_id" >>= uuidOf
  let awsAccountId ← item data "aws_account_id"
  let region ← item data "region"
  let roleArn ← getOr data "role_arn" .null
  let externalId ← getOr data "external_id" .null
  let name ← getOr data "name" .null
  let resourceTypes ← getOr data "resource_types" .null >>= resourceTypesOf
  let force ← getOr data "force" (.bool false)
  let dryRun ← getOr data "dry_run" (.bool false)
  return ⟨jobId, awsAccountId, region, roleArn, externalId, name, resourceTypes, truthy force,
    truthy dryRun⟩

/-- The body of a message. -/
def encode (x : WorkItem) : String := dumps (toDict x)

def decode (levels : Nat) (body : String) : Except Exc Decoded := loads levels body >>= fromDict

/-- An item whose fields have the types that `WorkItem` declares. -/
def ofItem (x : WorkItem) : Decoded where
  jobId := x.jobId
  awsAccountId := .str x.awsAccountId
  region := .str x.region
  roleArn := optText x.roleArn
  externalId := optText x.externalId
  name := optText x.name
  resourceTypes := x.resourceTypes.map fun l => l.map .str
  force := x.force
  dryRun := x.dryRun

theorem optText_inj {a b : Option String} (h : optText a = optText b) : a = b := by
  cases a <;> cases b <;> simp_all [optText]

theorem map_str_inj {a b : List String} (h : a.map Json.str = b.map Json.str) : a = b :=
  List.map_injective_iff.2 (fun _ _ => Json.str.inj) h

theorem ofItem_inj {x y : WorkItem} (h : ofItem x = ofItem y) : x = y := by
  obtain ⟨jobId, account, region, roleArn, externalId, name, resourceTypes, force, dryRun⟩ := x
  obtain ⟨jobId', account', region', roleArn', externalId', name', resourceTypes', force',
    dryRun'⟩ := y
  simp only [ofItem, Decoded.mk.injEq, Json.str.injEq] at h
  obtain ⟨rfl, rfl, rfl, hrole, hexternal, hname, htypes, rfl, rfl⟩ := h
  cases optText_inj hrole
  cases optText_inj hexternal
  cases optText_inj hname
  have htypes' : resourceTypes = resourceTypes' :=
    Option.map_injective (fun _ _ => map_str_inj) htypes
  rw [htypes']

/-! ## The round trip -/

theorem plain_optText (s : Option String) : JsonText.Plain (optText s) := by
  cases s <;> exact trivial

theorem plain_texts (l : List String) : JsonText.PlainItems (l.map .str) := by
  induction l with
  | nil => exact trivial
  | cons s l ih => exact ⟨trivial, ih⟩

theorem plain_toDict (x : WorkItem) : JsonText.Plain (toDict x) := by
  have htypes : JsonText.Plain ((nonemptyList x.resourceTypes).elim .null fun l =>
      .list (l.map .str)) := by
    cases nonemptyList x.resourceTypes with
    | none => exact trivial
    | some l => exact plain_texts l
  refine ⟨by simp, ?_⟩
  exact ⟨trivial, trivial, trivial, plain_optText _, plain_optText _, plain_optText _, htypes,
    trivial, trivial, trivial⟩

theorem depth_optText (s : Option String) : JsonText.depth (optText s) = 0 := by
  cases s <;> rfl

theorem depthItems_texts (l : List String) : JsonText.depthItems (l.map .str) = 0 := by
  induction l with
  | nil => rfl
  | cons s l ih => rw [List.map_cons, JsonText.depthItems, ih]; rfl

theorem depth_toDict_le (x : WorkItem) : JsonText.depth (toDict x) ≤ 2 := by
  have htypes : JsonText.depth ((nonemptyList x.resourceTypes).elim .null fun l =>
      .list (l.map .str)) ≤ 1 := by
    cases nonemptyList x.resourceTypes with
    | none => exact Nat.zero_le _
    | some l =>
      rw [Option.elim_some, JsonText.depth, depthItems_texts]
  simp only [toDict, JsonText.depth, JsonText.depthFields, depth_optText]
  omega

/-- The item that `from_dict` makes of it. -/
def widened (x : WorkItem) : WorkItem :=
  { x with resourceTypes := nonemptyList x.resourceTypes }

theorem resourceTypesOf_toDict (types : Option (List String)) :
    resourceTypesOf ((nonemptyList types).elim .null fun l => .list (l.map .str)) =
      .ok ((nonemptyList types).map fun l => l.map .str) := by
  rcases types with _ | _ | ⟨s, l⟩
  · rfl
  · rfl
  · rfl

theorem fromDict_toDict {x : WorkItem} (hid : x.jobId < Uuid.bound) :
    fromDict (toDict x) = .ok (ofItem (widened x)) := by
  have huuid : uuidOf (.str (Uuid.text x.jobId)) = .ok x.jobId := by
    rw [uuidOf, Uuid.parse_text hid]
    rfl
  have htypes := resourceTypesOf_toDict x.resourceTypes
  simp only [fromDict, toDict, item, getOr, Json.get?, List.find?_cons, String.reduceEq,
    decide_false, decide_true, Option.map_some, Option.elim_some, Option.getD_some, bind,
    Except.bind, huuid, htypes]
  rfl

theorem decode_encode {x : WorkItem} (hid : x.jobId < Uuid.bound) {levels : Nat}
    (hlevels : 2 ≤ levels) : decode levels (encode x) = .ok (ofItem (widened x)) := by
  have hloads := loads_dumps (plain_toDict x) ((depth_toDict_le x).trans hlevels)
  simp only [decode, encode, hloads, bind, Except.bind]
  exact fromDict_toDict hid

/-! ## Faithful encodings -/

/-- The item comes back as it was. -/
def Faithful (levels : Nat) (x : WorkItem) : Prop := decode levels (encode x) = .ok (ofItem x)

/-- What comes back asks for the jobs the item asks for. -/
def SameJobs (levels : Nat) (x : WorkItem) : Prop :=
  ∃ y, decode levels (encode x) = .ok (ofItem y) ∧
    Collector.resolveJobs (targetOf y) = Collector.resolveJobs (targetOf x)

theorem widened_eq_iff {x : WorkItem} : widened x = x ↔ x.resourceTypes ≠ some [] := by
  have htypes : widened x = x ↔ nonemptyList x.resourceTypes = x.resourceTypes := by
    constructor
    · exact fun h => congrArg WorkItem.resourceTypes h
    · intro h
      rw [widened, h]
  rw [htypes]
  rcases x.resourceTypes with _ | _ | ⟨s, l⟩ <;> simp [nonemptyList]

/-- The empty selection asks for no job, and is widened to all of them. -/
theorem resolveJobs_widened_iff {x : WorkItem} :
    Collector.resolveJobs (targetOf (widened x)) = Collector.resolveJobs (targetOf x) ↔
      x.resourceTypes ≠ some [] := by
  constructor
  · intro h hempty
    have hnone : (widened x).resourceTypes = none := by rw [widened, hempty]; rfl
    simp only [Collector.resolveJobs, targetOf, hnone, hempty] at h
    exact absurd (congrArg List.length (Except.ok.inj h)) (by decide)
  · intro h
    rw [widened_eq_iff.2 h]

theorem roundTrip_iff {x : WorkItem} (hid : x.jobId < Uuid.bound) {levels : Nat}
    (hlevels : 2 ≤ levels) : (Faithful levels x ↔ x.resourceTypes ≠ some []) ∧
      (SameJobs levels x ↔ x.resourceTypes ≠ some []) := by
  have hdecode := decode_encode hid hlevels
  constructor
  · rw [Faithful, hdecode, ← widened_eq_iff]
    exact ⟨fun h => ofItem_inj (Except.ok.inj h), fun h => by rw [h]⟩
  · rw [← resolveJobs_widened_iff]
    constructor
    · rintro ⟨y, hy, hjobs⟩
      rw [hdecode] at hy
      rw [ofItem_inj (Except.ok.inj hy)]
      exact hjobs
    · exact fun h => ⟨widened x, hdecode, h⟩

/-- An item that asks for the RDS scan. -/
def rdsItem : WorkItem where
  jobId := 0x1b4e28ba2fa111d2883f0016d3cca427
  awsAccountId := "111111111111"
  region := "eu-west-1"
  roleArn := some "arn:aws:iam::111111111111:role/ConstatReadOnly"
  externalId := none
  name := some "prod \"été\""
  resourceTypes := some ["rds"]
  force := true
  dryRun := false

theorem rdsItem_roundTrip : (Faithful 2 rdsItem ↔ rdsItem.resourceTypes ≠ some []) ∧
    (SameJobs 2 rdsItem ↔ rdsItem.resourceTypes ≠ some []) :=
  roundTrip_iff (by decide) (by decide)

/-- An item that asks for no scan asks for all of them on the other side. -/
theorem empty_selection_widened :
    let x := { rdsItem with resourceTypes := some [] }
    ¬ Faithful 2 x ∧ ¬ SameJobs 2 x ∧ Collector.resolveJobs (targetOf x) = .ok [] ∧
      ∃ y, decode 2 (encode x) = .ok (ofItem y) ∧
        Collector.resolveJobs (targetOf y) = .ok Collector.jobRegistry := by
  intro x
  have hdecode : decode 2 (encode x) = .ok (ofItem (widened x)) :=
    decode_encode (by decide) (Nat.le_refl 2)
  refine ⟨fun h => ?_, ?_, rfl, widened x, hdecode, rfl⟩
  · rw [Faithful, hdecode] at h
    exact widened_eq_iff.1 (ofItem_inj (Except.ok.inj h)) rfl
  · rintro ⟨y, hy, hjobs⟩
    rw [hdecode] at hy
    rw [← ofItem_inj (Except.ok.inj hy)] at hjobs
    exact resolveJobs_widened_iff.1 hjobs rfl

end WorkItems

end Constat
