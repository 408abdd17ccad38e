import Constat.Collector
import Constat.Lib.Loop
import Constat.Py.Isoformat

/-!
# ReplayFacts

`cli/replay_facts.py`: the facts written again from the stored observations, each translated as the
collector translated its item. The query orders by `observed_at` and leaves the order of equal times
to the database, so the rows it answers with are an argument (`Answers`).

* `payloadToDb`        — the item back from the payload of its observation.
* `replayObservations` — one replay in a session.
* `dbToFacts_payload`  — the facts of the item that comes back are the ones of the item.
-/

namespace Constat

open Collectors

namespace ReplayFacts

def supportedSources : List String := [Rds.sourceName]

/-! ## The item of a payload -/

/-- `datetime.fromisoformat`, and `None` for what it does not read. -/
def createTime (payload : Raw) : Json :=
  match payload.get "InstanceCreateTime" with
  | .str s => if (Date.ofIsoformat s).isSome then .str s else .null
  | _ => .null

/-- `{field: payload[key]} if payload.get(key) else None`. -/
def wrapped (payload : Raw) (key field : String) : Json :=
  if Py.truthy (payload.get key) then .obj [(field, payload.get key)] else .null

/-- `_payload_to_db`. -/
def payloadToDb (payload : Raw) (region : String) : Raw :=
  payload.pick ["DBInstanceArn", "DBInstanceIdentifier", "Engine", "EngineVersion",
    "DBInstanceClass", "DBInstanceStatus", "AllocatedStorage"] ++
  [("InstanceCreateTime", createTime payload)] ++
  payload.pick ["MultiAZ", "StorageEncrypted"] ++
  [("DBSubnetGroup", wrapped payload "DBSubnetGroup" "DBSubnetGroupName"),
    ("Endpoint", wrapped payload "Endpoint" "Address"), ("_region", .str region)]

/-- The payload column holds a dict. -/
def payloadOf (payload : Json) : Raw := (Raw.asObj payload).getD []

/-! ## The replay -/

structure ReplayOptions where
  accountExternalId : Option String
  since : Option Micros
  sources : Option (List String)
  dryRun : Bool

/-- A replay without filters. -/
def everything : ReplayOptions := ⟨none, none, none, false⟩

def sourcesOf (options : ReplayOptions) : List String :=
  match options.sources with
  | none | some [] => supportedSources
  | some sources => sources

def unknownSources (unknown : List String) : PyError :=
  ⟨"ValueError", "Unknown source(s) for replay: " ++
    Py.str (.list ((unknown.dedup.insertionSort (· ≤ ·)).map .str))⟩

/-- The rows of the query, before they are ordered. -/
def selected (t : Store) (options : ReplayOptions) : List ObservationRow :=
  t.observations.rows.filter fun o =>
    options.since.all (· ≤ o.observedAt) &&
      options.accountExternalId.all fun externalId =>
        (t.resources.get? o.resourceId).any fun r =>
          (t.accounts.get? r.accountId).any fun a => a.externalId = externalId

/-- `rows` are an answer to the query. -/
def Answers (t : Store) (options : ReplayOptions) (rows : List ObservationRow) : Prop :=
  rows.Perm (selected t options) ∧ rows.Pairwise fun o o' => o.observedAt ≤ o'.observedAt

/-- The facts of an observation; `none` for one that is skipped. -/
def translate (resources : Table Resource.id) (sources : List String) (o : ObservationRow) :
    Option (List Fact) :=
  if o.source ∉ sources then none
  else
    match resources.get? o.resourceId with
    | none => none
    | some resource =>
      if o.source = Rds.sourceName then
        some (Rds.dbToFacts resource.id resource.accountId
          (payloadToDb (payloadOf o.payload) resource.region) o.observedAt)
      else none

structure ReplayState where
  session : DbSession
  seen : List Uuid
  factsUpserted : Nat
  skipped : Nat

def replayOne (sources : List String) (dryRun : Bool) (st : ReplayState) (o : ObservationRow) :
    Except PyError ReplayState :=
  if o.id ∈ st.seen then .ok st
  else
    let st := { st with seen := st.seen ++ [o.id] }
    match translate st.session.working.resources sources o with
    | none => .ok { st with skipped := st.skipped + 1 }
    | some facts =>
      if dryRun then .ok { st with factsUpserted := st.factsUpserted + facts.length }
      else
        match Facts.upsertFacts st.session facts o.sourceRunId with
        | .error e => .error (Collector.raisedBy e)
        | .ok (s, _) => .ok { st with
            session := s
            factsUpserted := st.factsUpserted + facts.length }

structure ReplayStats where
  observationsScanned : Nat
  factsUpserted : Nat
  observationsSkipped : Nat
deriving DecidableEq

def replayObservations (options : ReplayOptions) (rows : List ObservationRow) (s : DbSession) :
    Except PyError (DbSession × ReplayStats) :=
  let sources := sourcesOf options
  let unknown := sources.filter fun source => source ∉ supportedSources
  if unknown ≠ [] then .error (unknownSources unknown)
  else
    match rows.foldlM (replayOne sources options.dryRun) ⟨s, [], 0, 0⟩ with
    | .error e => .error e
    | .ok st => .ok (if options.dryRun then st.session else st.session.commit,
        ⟨rows.length, st.factsUpserted, st.skipped⟩)

/-- A replay in a session of its own: what the store holds once the session is closed. -/
def replayStep (options : ReplayOptions) (rows : List ObservationRow) (t : Store) :
    Except PyError (Store × ReplayStats) :=
  match replayObservations options rows (Session.begin t) with
  | .error e => .error e
  | .ok (s, stats) => .ok (s.close, stats)

/-! ## The facts of the item that comes back -/

/-- The fields that `db_to_facts` reads. -/
def factFields : List String := ["DBInstanceClass", "Engine", "EngineVersion", "_region"]

theorem dbToFacts_congr {db db' : Raw} (h : ∀ field ∈ factFields, db.get field = db'.get field)
    (id account : Uuid) (observedAt : Micros) :
    Rds.dbToFacts id account db observedAt = Rds.dbToFacts id account db' observedAt := by
  simp only [factFields, List.forall_mem_cons, List.not_mem_nil, false_implies, implies_true,
    and_true] at h
  obtain ⟨hclass, hengine, hversion, hregion⟩ := h
  simp only [Rds.dbToFacts, hclass, hengine, hversion, hregion]

theorem get_tagRegion (region : String) (raw : Raw) :
    (tagRegion region raw).get "_region" = .str region := by
  have hfind : Json.get? (tagRegion region raw) "_region" = some (.str region) := by
    rw [tagRegion, Json.get?]
    induction raw with
    | nil => rfl
    | cons p raw ih =>
      rw [Table.putRow]
      by_cases hkey : p.1 = "_region"
      · rw [if_pos hkey]
        rfl
      · rw [if_neg hkey, List.find?_cons_of_neg (by simpa using hkey)]
        exact ih
  rw [Raw.get, hfind]
  rfl

/-- No field that the facts read is lost on the way through the payload. -/
theorem get_payloadToDb (id : Uuid) (region : String) (raw : Raw) (observedAt : Micros) :
    ∀ field ∈ factFields,
      (payloadToDb (payloadOf (Rds.dbToObservation id (tagRegion region raw) observedAt).payload)
        region).get field = (tagRegion region raw).get field := by
  have hregion := get_tagRegion region raw
  generalize tagRegion region raw = db at hregion
  simp only [factFields, List.forall_mem_cons, List.not_mem_nil, false_implies, implies_true,
    and_true, hregion]
  refine ⟨?_, ?_, ?_, ?_⟩ <;>
    simp [payloadToDb, payloadOf, Rds.dbToObservation, Raw.asObj, Raw.pick, Raw.get, Json.get?]

/-- Nor in the facts that are read from what comes back. -/
theorem dbToFacts_payload (id account : Uuid) (region : String) (raw : Raw) (observedAt : Micros) :
    Rds.dbToFacts id account
        (payloadToDb (payloadOf (Rds.dbToObservation id (tagRegion region raw) observedAt).payload)
          region) observedAt =
      Rds.dbToFacts id account (tagRegion region raw) observedAt :=
  dbToFacts_congr (get_payloadToDb id region raw observedAt) id account observedAt

end ReplayFacts

end Constat
