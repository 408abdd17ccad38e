import Constat.Rules.Models

/-!
# Collectors.Aws

`constat_core/collectors/aws.py`: what the inventory connectors share. A raw item is one dict of an
AWS response. botocore fixes the shape of every field, so a field read as a list of dicts or as a
dict is one or is absent; a datetime is carried as its ISO text.
-/

namespace Constat

abbrev Raw := List (String × Json)

namespace Raw

/-- `raw.get(key)`. -/
def get (raw : Raw) (key : String) : Json := (Json.get? raw key).getD .null

/-- `raw[key]`, of a field that holds text. -/
def text (raw : Raw) (key : String) : Except PyError String :=
  match Json.get? raw key with
  | some value => .ok (Py.str value)
  | none => .error ⟨"KeyError", "'" ++ key ++ "'"⟩

def asObj : Json → Option Raw
  | .obj fields => some fields
  | _ => none

/-- `raw.get(key) or []`, a list of dicts. -/
def items (raw : Raw) (key : String) : List Raw :=
  match get raw key with
  | .list xs => xs.filterMap asObj
  | _ => []

/-- `raw.get(key) or {}`. -/
def sub (raw : Raw) (key : String) : Raw := (asObj (get raw key)).getD []

/-- `t.isoformat() if t else None`. -/
def iso (raw : Raw) (key : String) : Json :=
  if Py.truthy (get raw key) then get raw key else .null

/-- The key of a dict in JSON text. -/
def jsonKey : Json → String
  | .null => "null"
  | value => Py.str value

/-- `{t.get("Key"): t.get("Value") for t in (raw.get("Tags") or [])}`. -/
def tags (raw : Raw) : Json :=
  .obj ((items raw "Tags").foldl
    (fun fields t => Table.putRow Prod.fst (jsonKey (get t "Key"), get t "Value") fields) [])

/-- The dict with the fields `keys` of `raw`. -/
def pick (raw : Raw) (keys : List String) : List (String × Json) :=
  keys.map fun key => (key, get raw key)

end Raw

namespace Collectors

def defaultRegions : List String :=
  ["eu-west-1", "eu-west-2", "eu-west-3", "eu-central-1", "us-east-1", "us-east-2", "us-west-2"]

/-- The items of a scan of `region`, each with the injected `_region`. -/
def tagRegion (region : String) (raw : Raw) : Raw :=
  Table.putRow Prod.fst ("_region", .str region) raw

def knownOrUnknown : Json → ValueState
  | .null => .unknown
  | .str s => if s = "" then .unknown else .known
  | .list xs => if xs.isEmpty then .unknown else .known
  | .obj fields => if fields.isEmpty then .unknown else .known
  | _ => .known

structure Observation where
  resourceId : Uuid
  source : String
  observedAt : Micros
  payload : Json
deriving DecidableEq

/-- `make_fact_builder`. -/
def makeFact (namespaceName source : String) (accountId : Uuid) (observedAt : Micros)
    (resourceId : Uuid) (key : String) (value : Json) (state : ValueState) : Fact where
  resourceId := some resourceId
  accountId := some accountId
  namespaceName := namespaceName
  key := key
  value := value
  valueState := state
  source := source
  observedAt := observedAt

end Collectors

end Constat
