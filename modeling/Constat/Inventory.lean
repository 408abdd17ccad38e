import Constat.Collectors.Aws
import Constat.SourceRuns

/-!
# Inventory

The repositories a collection writes through: `accounts.py`, `resources.py`, `observations.py` and
`facts.py`. Sessions do not autoflush, so a statement sees what was flushed before it: the lookups
of one `upsert_facts` batch do not see the rows the batch has added.

A resource gets an id at or above `fresh`, which the collector moves past every id it has drawn:
an id is not drawn again after its row was rolled back.
-/

namespace Constat

/-- `scalar_one_or_none`. -/
def scalarOneOrNone {α : Type} : List α → Except DbError (Option α)
  | [] => .ok none
  | [x] => .ok (some x)
  | _ => .error .multipleResultsFound

theorem eq_singleton_of_scalarOneOrNone {α : Type} {l : List α} {x : α}
    (h : scalarOneOrNone l = .ok (some x)) : l = [x] := by
  match l, h with
  | [y], h => cases h; rfl

theorem eq_nil_of_scalarOneOrNone {α : Type} {l : List α} (h : scalarOneOrNone l = .ok none) :
    l = [] := by
  match l, h with
  | [], _ => rfl
  | [_], h => cases h
  | _ :: _ :: _, h => cases h

/-! ## Accounts -/

namespace Accounts

def getByExternalId (s : Store) (externalId : String) : Except DbError (Option Account) :=
  scalarOneOrNone (s.accounts.rows.filter fun a => a.externalId = externalId)

def newAccount (s : Store) (externalId : String) (name : Option String) : Account where
  id := s.accounts.next
  externalId := externalId
  name := some (match name with
    | some name => if name = "" then "account-" ++ externalId else name
    | none => "account-" ++ externalId)

def getOrCreate (s : DbSession) (externalId : String) (name : Option String) :
    Except DbError (DbSession × Account) :=
  match getByExternalId s.working externalId with
  | .error e => .error e
  | .ok (some account) => .ok (s, account)
  | .ok none =>
    let account := newAccount s.working externalId name
    .ok (s.write (.account account), account)

end Accounts

/-! ## Resources -/

namespace Resources

structure NaturalKey where
  accountId : Uuid
  region : String
  resourceType : String
  nativeId : String
deriving DecidableEq

def keyOf (r : Resource) : NaturalKey where
  accountId := r.accountId
  region := r.region
  resourceType := r.resourceType
  nativeId := r.nativeId

/-- Seen again: not retired any more. -/
def seen (r : Resource) (now : Micros) : Resource :=
  { r with retiredAt := none, lastSeenAt := now }

def newResource (s : Store) (key : NaturalKey) (now : Micros) (fresh : Uuid) : Resource where
  id := max fresh s.resources.next
  accountId := key.accountId
  region := key.region
  resourceType := key.resourceType
  nativeId := key.nativeId
  firstSeenAt := now
  lastSeenAt := now
  retiredAt := none

/-- Find by natural key or create. -/
def upsertResource (s : DbSession) (key : NaturalKey) (now : Micros) (fresh : Uuid) :
    Except DbError (DbSession × Resource) :=
  match scalarOneOrNone (s.working.resources.rows.filter fun r => keyOf r = key) with
  | .error e => .error e
  | .ok (some r) => .ok (s.write (.resource (seen r now)), seen r now)
  | .ok none =>
    let r := newResource s.working key now fresh
    .ok (s.write (.resource r), r)

def consecutiveScansForRetirement : Nat := 2

/-- The resources of a scope that its two most recent successful runs both missed. -/
def staleResources (s : Store) (scope : Scope) : List Resource :=
  let runs := SourceRuns.recentSuccessfulRuns s scope consecutiveScansForRetirement
  if runs.length < consecutiveScansForRetirement then []
  else
    match runs.getLast? with
    | none => []
    | some oldest => s.resources.rows.filter fun r =>
      r.accountId = scope.accountId ∧ r.region = scope.region ∧
        r.resourceType = scope.resourceType ∧ r.retiredAt = none ∧
        r.lastSeenAt < oldest.startedAt

def retired (now : Micros) (r : Resource) : Resource := { r with retiredAt := some now }

def retireStaleResources (s : DbSession) (scope : Scope) (now : Micros) : DbSession × Nat :=
  let stale := staleResources s.working scope
  (s.writes (stale.map fun r => .resource (retired now r)), stale.length)

end Resources

/-! ## Observations -/

namespace Observations

def insertObservation (s : DbSession) (o : Collectors.Observation) (run : Option Uuid) :
    DbSession :=
  s.write (.observation {
    id := s.working.observations.next
    resourceId := o.resourceId
    source := o.source
    observedAt := o.observedAt
    payload := o.payload
    sourceRunId := run })

end Observations

/-! ## Facts -/

namespace Facts

structure FactKey where
  resourceId : Option Uuid
  namespaceName : String
  key : String
  source : String
deriving DecidableEq

def keyOf (f : Fact) : FactKey where
  resourceId := f.resourceId
  namespaceName := f.namespaceName
  key := f.key
  source := f.source

def keyOfRow (f : FactRow) : FactKey where
  resourceId := f.resourceId
  namespaceName := f.namespaceName
  key := f.key
  source := f.source

def matching (s : Store) (f : Fact) : List FactRow :=
  s.facts.rows.filter fun row => keyOfRow row = keyOf f

def updatedRow (row : FactRow) (f : Fact) (run : Option Uuid) : FactRow :=
  { row with
    value := f.value
    valueState := f.valueState
    observedAt := f.observedAt
    lastSourceRunId := run }

def newRow (id : Uuid) (f : Fact) (run : Option Uuid) : FactRow where
  id := id
  resourceId := f.resourceId
  accountId := f.accountId
  namespaceName := f.namespaceName
  key := f.key
  value := f.value
  valueState := f.valueState
  source := f.source
  observedAt := f.observedAt
  lastSourceRunId := run

/-- The rows a batch writes so far, and how many of them are inserted and updated. -/
structure Batch where
  rows : List FactRow
  inserted : Nat
  updated : Nat

def addFact (s : Store) (run : Option Uuid) (b : Batch) (f : Fact) : Except DbError Batch :=
  match scalarOneOrNone (matching s f) with
  | .error e => .error e
  | .ok (some row) => .ok ⟨b.rows ++ [updatedRow row f run], b.inserted, b.updated + 1⟩
  | .ok none =>
    .ok ⟨b.rows ++ [newRow (s.facts.next + b.inserted) f run], b.inserted + 1, b.updated⟩

/-- The constraints the flush checks on the rows a batch inserts: the foreign keys, and the unique
key, which a row without a resource does not take part in. -/
def flushable (s : Store) (facts : List Fact) : Bool :=
  let fresh := facts.filter fun f => (matching s f).isEmpty
  fresh.all (fun f => f.resourceId.all (fun id => (s.resources.get? id).isSome) &&
    f.accountId.all fun id => (s.accounts.get? id).isSome) &&
  decide ((fresh.filter fun f => f.resourceId.isSome).map keyOf).Nodup

/-- Insert or update facts by natural key. -/
def upsertFacts (s : DbSession) (facts : List Fact) (run : Option Uuid) :
    Except DbError (DbSession × Nat × Nat) :=
  match facts.foldlM (addFact s.working run) ⟨[], 0, 0⟩ with
  | .error e => .error e
  | .ok b =>
    if flushable s.working facts then
      .ok (s.writes (b.rows.map .fact), b.inserted, b.updated)
    else .error .integrityError

end Facts

end Constat
