import Mathlib.Logic.Function.Basic
import Constat.Lib.Loop
import Constat.Py.Calendar
import Constat.Py.Text

/-!
# Retention

`retention.py`: every enabled policy deletes the rows of its table that are older than its days, and
one that raises ValueError is disabled instead. The policies are those of DEFAULT_TENANT_ID,
whatever tenant the session is bound to, and row-level security shows a session its own tenant only;
a cutoff outside the range of datetime is an OverflowError, which no handler of the loop catches.

* `purge`             — all rows that some rule dooms, gone at once; one delete is a purge
                        (`delete_eq`) and two of them are one (`purge_purge`).
* `Contained`         — what cannot be applied is disabled, and what has expired is gone.
* `runsContained_iff` — for the default tenant exactly when no cutoff overflows, for any other one
                        when there is nothing to disable and nothing to purge.
-/

namespace Constat

namespace Retention

/-! ## Tables -/

/-- ALLOWED_TABLES. -/
inductive AllowedTable where
  | observations
  | focusCharges
  | insights
  | inconclusive
  | sourceRuns
deriving DecidableEq

def AllowedTable.parse (tableName : String) : Option AllowedTable :=
  if tableName = "observations" then some .observations
  else if tableName = "focus_charges" then some .focusCharges
  else if tableName = "insights" then some .insights
  else if tableName = "inconclusive" then some .inconclusive
  else if tableName = "source_runs" then some .sourceRuns
  else none

structure Policy where
  id : Uuid
  tableName : String
  retentionDays : Int
  enabled : Bool
  lastAppliedAt : Option Micros
  lastDeletedCount : Option Nat
deriving DecidableEq

/-- What is stored for one tenant; the two functions are the `ingested_at` columns. -/
structure TenantData where
  store : Store
  observationIngestedAt : Uuid → Micros
  chargeIngestedAt : Nat → Micros
  policies : Table Policy.id

/-- By the tenant that the rows belong to. -/
abbrev Database := Uuid → TenantData

/-- The column that the age of a row goes by. -/
def TenantData.times (d : TenantData) : AllowedTable → List Micros
  | .observations => d.store.observations.rows.map fun r => d.observationIngestedAt r.id
  | .focusCharges => d.store.focusCharges.rows.map fun r => d.chargeIngestedAt r.id
  | .insights => d.store.insights.rows.map (·.computedAt)
  | .inconclusive => d.store.inconclusive.rows.map (·.computedAt)
  | .sourceRuns => d.store.sourceRuns.rows.map (·.startedAt)

/-! ### Foreign keys -/

/-- ON DELETE SET NULL; the tags of a charge are ON DELETE CASCADE. -/
def unlink (lost : Uuid → Bool) (run : Option Uuid) : Option Uuid := run.filter fun id => !lost id

def unlinkObservation (lost : Uuid → Bool) (r : ObservationRow) : ObservationRow :=
  { r with sourceRunId := unlink lost r.sourceRunId }

theorem unlinkObservation_id (lost : Uuid → Bool) (r : ObservationRow) :
    (unlinkObservation lost r).id = r.id := rfl

def unlinkFact (lost : Uuid → Bool) (r : FactRow) : FactRow :=
  { r with lastSourceRunId := unlink lost r.lastSourceRunId }

theorem unlinkFact_id (lost : Uuid → Bool) (r : FactRow) : (unlinkFact lost r).id = r.id := rfl

def unlinkObservations (lost : Uuid → Bool) (t : Table ObservationRow.id) :
    Table ObservationRow.id :=
  t.mapRows (unlinkObservation lost) (unlinkObservation_id lost)

def unlinkFacts (lost : Uuid → Bool) (t : Table FactRow.id) : Table FactRow.id :=
  t.mapRows (unlinkFact lost) (unlinkFact_id lost)

/-- The runs and the charges that `doomed` selects. -/
def TenantData.lostRun (d : TenantData) (doomed : Micros → Bool) (id : Uuid) : Bool :=
  d.store.sourceRuns.rows.any fun r => r.id = id && doomed r.startedAt

def TenantData.lostCharge (d : TenantData) (doomed : Micros → Bool) (id : Nat) : Bool :=
  d.store.focusCharges.rows.any fun r => r.id = id && doomed (d.chargeIngestedAt r.id)

/-- DELETE of the rows of a table that are older than the cutoff, with what goes with them. -/
def TenantData.delete (d : TenantData) (table : AllowedTable) (cutoff : Micros) : TenantData :=
  let old := fun ts : Micros => decide (ts < cutoff)
  { d with store := match table with
    | .observations => { d.store with observations :=
        d.store.observations.deleteWhere fun r => old (d.observationIngestedAt r.id) }
    | .focusCharges => { d.store with
        focusCharges := d.store.focusCharges.deleteWhere fun r => old (d.chargeIngestedAt r.id)
        focusChargeTags := d.store.focusChargeTags.deleteWhere
          fun r => d.lostCharge old r.focusChargeId }
    | .insights => { d.store with insights :=
        d.store.insights.deleteWhere fun r => old r.computedAt }
    | .inconclusive => { d.store with inconclusive :=
        d.store.inconclusive.deleteWhere fun r => old r.computedAt }
    | .sourceRuns => { d.store with
        sourceRuns := d.store.sourceRuns.deleteWhere fun r => old r.startedAt
        observations := unlinkObservations (d.lostRun old) d.store.observations
        facts := unlinkFacts (d.lostRun old) d.store.facts } }

/-! ## One policy -/

def notAllowed (tableName : String) : PyError :=
  ⟨"ValueError", "unknown or disallowed table for retention: " ++ Py.reprStr tableName ++
    ". Allowed: " ++ Py.str (.list (["focus_charges", "inconclusive", "insights", "observations",
      "source_runs"].map .str))⟩

def negativeDays (days : Int) : PyError :=
  ⟨"ValueError", "retention_days must be >= 0, got " ++ toString days⟩

/-- `timedelta(days=days)`. -/
def timedelta (days : Int) : Except PyError Micros :=
  if days.natAbs ≤ 999999999 then .ok (days * Micros.day)
  else if -2147483648 ≤ days ∧ days ≤ 2147483647 then
    .error ⟨"OverflowError", "days=" ++ toString days ++ "; must have magnitude <= 999999999"⟩
  else .error ⟨"OverflowError", "Python int too large to convert to C int"⟩

/-- `datetime.min`, the first of January of the year 1. -/
def minDatetime : Micros := (1 - Micros.epochOrdinal) * Micros.day

/-- `now - timedelta(days=days)`. -/
def cutoff (now : Micros) (days : Int) : Except PyError Micros :=
  match timedelta days with
  | .error e => .error e
  | .ok delta =>
    if now - delta < minDatetime then .error ⟨"OverflowError", "date value out of range"⟩
    else .ok (now - delta)

/-- In a session bound to the tenant `bound`, which sees the rows of no other tenant. -/
def applyRetention (db : Database) (bound : Uuid) (tableName : String) (retentionDays : Int)
    (tenantId : Uuid) (now : Micros) : Except PyError (Database × Nat) :=
  match AllowedTable.parse tableName with
  | none => .error (notAllowed tableName)
  | some table =>
    if retentionDays < 0 then .error (negativeDays retentionDays)
    else
      match cutoff now retentionDays with
      | .error e => .error e
      | .ok cutoff =>
        if tenantId = bound then
          .ok (Function.update db bound ((db bound).delete table cutoff),
            ((db bound).times table).countP (· < cutoff))
        else .ok (db, 0)

/-! ## All policies -/

/-- The order in which the policies are selected, which the statement leaves open, and what the
clock reads for each of them. -/
structure World where
  fetch : List Policy → List Policy
  fetch_perm : ∀ l, List.Perm (fetch l) l
  now : Uuid → Micros
  appliedAt : Uuid → Micros

/-- The enabled policies of the default tenant, as far as the session sees them. -/
def selectPolicies (db : Database) (bound : Uuid) : List Policy :=
  if defaultTenantId = bound then (db bound).policies.rows.filter (·.enabled) else []

structure Progress where
  db : Database
  results : Dict String Int

def Progress.save (run : Progress) (bound : Uuid) (policy : Policy) (result : Int) : Progress where
  db := Function.update run.db bound
    { run.db bound with policies := (run.db bound).policies.put policy }
  results := run.results.set policy.tableName result

def applyPolicy (bound : Uuid) (world : World) (run : Progress) (policy : Policy) :
    Except PyError Progress :=
  match applyRetention run.db bound policy.tableName policy.retentionDays defaultTenantId
      (world.now policy.id) with
  | .error e =>
    if e.cls = "ValueError" then .ok (run.save bound { policy with enabled := false } (-1))
    else .error e
  | .ok (db, deleted) => .ok (({ run with db := db } : Progress).save bound
      { policy with
        lastAppliedAt := some (world.appliedAt policy.id)
        lastDeletedCount := some deleted } deleted)

/-- The commit is at the end: a run that raises leaves the database as it was. -/
def applyAllEnabled (db : Database) (bound : Uuid) (world : World) :
    Except PyError (Database × Dict String Int) :=
  ((world.fetch (selectPolicies db bound)).foldlM (applyPolicy bound world) ⟨db, .empty⟩).map
    fun run => (run.db, run.results)

/-! ## What has expired -/

/-- The table and the cutoff of a policy that can be applied. -/
def limit (world : World) (policy : Policy) : Option (AllowedTable × Micros) :=
  match AllowedTable.parse policy.tableName, cutoff (world.now policy.id) policy.retentionDays with
  | some table, .ok cutoff => if policy.retentionDays < 0 then none else some (table, cutoff)
  | _, _ => none

/-- The policy passes both checks, and then its cutoff is no datetime. -/
def Overflows (world : World) (policy : Policy) : Prop :=
  (AllowedTable.parse policy.tableName).isSome = true ∧ 0 ≤ policy.retentionDays ∧
    limit world policy = none

instance (world : World) (policy : Policy) : Decidable (Overflows world policy) :=
  inferInstanceAs (Decidable (_ ∧ _ ∧ _))

/-- A row of the table with this time is older than the cutoff of the policy. -/
def dooms (world : World) (policy : Policy) (table : AllowedTable) (ts : Micros) : Bool :=
  match limit world policy with
  | some (table', cutoff) => table' = table && ts < cutoff
  | none => false

/-- One of the enabled policies dooms it. -/
def expired (world : World) (d : TenantData) (table : AllowedTable) (ts : Micros) : Bool :=
  (d.policies.rows.filter (·.enabled)).any fun policy => dooms world policy table ts

/-- All the doomed rows, gone at once. -/
def purge (doomed : AllowedTable → Micros → Bool) (d : TenantData) : Store where
  accounts := d.store.accounts
  resources := d.store.resources
  observations := (unlinkObservations (d.lostRun (doomed .sourceRuns))
    d.store.observations).deleteWhere fun r => doomed .observations (d.observationIngestedAt r.id)
  facts := unlinkFacts (d.lostRun (doomed .sourceRuns)) d.store.facts
  sourceRuns := d.store.sourceRuns.deleteWhere fun r => doomed .sourceRuns r.startedAt
  insights := d.store.insights.deleteWhere fun r => doomed .insights r.computedAt
  insightEvents := d.store.insightEvents
  insightRuns := d.store.insightRuns
  inconclusive := d.store.inconclusive.deleteWhere fun r => doomed .inconclusive r.computedAt
  collectJobs := d.store.collectJobs
  focusCharges := d.store.focusCharges.deleteWhere
    fun r => doomed .focusCharges (d.chargeIngestedAt r.id)
  focusChargeTags := d.store.focusChargeTags.deleteWhere
    fun r => d.lostCharge (doomed .focusCharges) r.focusChargeId
  auditEvents := d.store.auditEvents
  piiClassifications := d.store.piiClassifications

/-! ### Purges -/

@[simp] theorem lostRun_none (d : TenantData) : d.lostRun (fun _ => false) = fun _ => false := by
  funext id
  simp [TenantData.lostRun]

@[simp] theorem lostCharge_none (d : TenantData) :
    d.lostCharge (fun _ => false) = fun _ => false := by
  funext id
  simp [TenantData.lostCharge]

@[simp] theorem unlink_none (run : Option Uuid) : unlink (fun _ => false) run = run := by
  cases run <;> rfl

theorem unlink_unlink (p q : Uuid → Bool) (run : Option Uuid) :
    unlink q (unlink p run) = unlink (fun id => p id || q id) run := by
  cases run with
  | none => rfl
  | some id => cases hp : p id <;> simp [unlink, Option.filter, hp]

@[simp] theorem unlinkObservations_none (t : Table ObservationRow.id) :
    unlinkObservations (fun _ => false) t = t :=
  Table.mapRows_id t fun r => by simp [unlinkObservation]

@[simp] theorem unlinkFacts_none (t : Table FactRow.id) : unlinkFacts (fun _ => false) t = t :=
  Table.mapRows_id t fun r => by simp [unlinkFact]

theorem unlinkObservations_twice (p q : Uuid → Bool) (t : Table ObservationRow.id) :
    unlinkObservations q (unlinkObservations p t) =
      unlinkObservations (fun id => p id || q id) t := by
  refine Table.mapRows_mapRows t fun r => ?_
  simp only [unlinkObservation, unlink_unlink]

theorem unlinkFacts_twice (p q : Uuid → Bool) (t : Table FactRow.id) :
    unlinkFacts q (unlinkFacts p t) = unlinkFacts (fun id => p id || q id) t := by
  refine Table.mapRows_mapRows t fun r => ?_
  simp only [unlinkFact, unlink_unlink]

theorem unlinkObservations_deleteWhere (lost doomed : Uuid → Bool) (t : Table ObservationRow.id) :
    unlinkObservations lost (t.deleteWhere fun r => doomed r.id) =
      (unlinkObservations lost t).deleteWhere fun r => doomed r.id :=
  (Table.deleteWhere_mapRows t doomed).symm

/-- One DELETE is a purge of one table. -/
theorem delete_eq (d : TenantData) (table : AllowedTable) (cutoff : Micros) :
    (d.delete table cutoff).store = purge (fun t ts => table = t && ts < cutoff) d := by
  cases table <;> simp [TenantData.delete, purge]

@[simp] theorem purge_none (d : TenantData) : purge (fun _ _ => false) d = d.store := by
  simp [purge]

/-- What a second purge finds lost, or the first one has found. -/
theorem any_filter_or {α : Type} (l : List α) (key : α → Bool) (p q : α → Bool) :
    ((l.any fun r => key r && p r) || (l.filter fun r => !p r).any fun r => key r && q r) =
      l.any fun r => key r && (p r || q r) := by
  induction l with
  | nil => rfl
  | cons r l ih =>
    rw [List.any_cons, List.any_cons, ← ih]
    cases hp : p r with
    | false =>
      rw [List.filter_cons_of_pos (by simp [hp]), List.any_cons]
      simp [Bool.or_left_comm]
    | true =>
      rw [List.filter_cons_of_neg (by simp [hp])]
      simp [Bool.or_assoc]

/-- Two purges are one. -/
theorem purge_purge (p q : AllowedTable → Micros → Bool) (d : TenantData) :
    purge q { d with store := purge p d } = purge (fun t ts => p t ts || q t ts) d := by
  have hrun : ∀ id, (d.lostRun (p .sourceRuns) id ||
      ({ d with store := purge p d } : TenantData).lostRun (q .sourceRuns) id) =
        d.lostRun (fun ts => p .sourceRuns ts || q .sourceRuns ts) id := fun id =>
    any_filter_or d.store.sourceRuns.rows (fun r => r.id = id) (fun r => p .sourceRuns r.startedAt)
      fun r => q .sourceRuns r.startedAt
  have hcharge : ∀ id, (d.lostCharge (p .focusCharges) id ||
      ({ d with store := purge p d } : TenantData).lostCharge (q .focusCharges) id) =
        d.lostCharge (fun ts => p .focusCharges ts || q .focusCharges ts) id := fun id =>
    any_filter_or d.store.focusCharges.rows (fun r => r.id = id)
      (fun r => p .focusCharges (d.chargeIngestedAt r.id))
      fun r => q .focusCharges (d.chargeIngestedAt r.id)
  generalize hlostRun : ({ d with store := purge p d } : TenantData).lostRun (q .sourceRuns) =
    lostRun at hrun
  generalize hlostCharge : ({ d with store := purge p d } : TenantData).lostCharge
    (q .focusCharges) = lostCharge at hcharge
  rw [purge, hlostRun, hlostCharge]
  simp only [purge, Table.deleteWhere_deleteWhere, hcharge]
  congr 1
  · rw [unlinkObservations_deleteWhere _ fun id => p .observations (d.observationIngestedAt id),
      Table.deleteWhere_deleteWhere, unlinkObservations_twice]
    simp only [hrun]
  · rw [unlinkFacts_twice]
    simp only [hrun]

/-- A purge that changes nothing has found nothing. -/
theorem purge_eq_self {doomed : AllowedTable → Micros → Bool} {d : TenantData} :
    purge doomed d = d.store ↔ ∀ table, ∀ ts ∈ d.times table, doomed table ts = false := by
  constructor
  · intro h table ts hts
    cases table <;> obtain ⟨r, hr, rfl⟩ := List.mem_map.1 hts
    case observations =>
      have hmem : r ∈ (purge doomed d).observations := by rw [h]; exact hr
      exact (Table.mem_deleteWhere.1 hmem).2
    case focusCharges => exact Table.deleteWhere_eq_self.1 (congrArg Store.focusCharges h) r hr
    case insights => exact Table.deleteWhere_eq_self.1 (congrArg Store.insights h) r hr
    case inconclusive => exact Table.deleteWhere_eq_self.1 (congrArg Store.inconclusive h) r hr
    case sourceRuns => exact Table.deleteWhere_eq_self.1 (congrArg Store.sourceRuns h) r hr
  · intro h
    have hrun : d.lostRun (doomed .sourceRuns) = fun _ => false := by
      funext id
      simp only [TenantData.lostRun, List.any_eq_false, Bool.and_eq_true, not_and]
      intro r hr _
      simp [h .sourceRuns r.startedAt (List.mem_map_of_mem hr)]
    have hcharge : d.lostCharge (doomed .focusCharges) = fun _ => false := by
      funext id
      simp only [TenantData.lostCharge, List.any_eq_false, Bool.and_eq_true, not_and]
      intro r hr _
      simp [h .focusCharges (d.chargeIngestedAt r.id) (List.mem_map.2 ⟨r, hr, rfl⟩)]
    simp only [purge, hrun, hcharge, unlinkObservations_none, unlinkFacts_none,
      Table.deleteWhere_none]
    rw [Table.deleteWhere_eq_self.2 fun r hr => h .observations _ (List.mem_map.2 ⟨r, hr, rfl⟩),
      Table.deleteWhere_eq_self.2 fun r hr => h .focusCharges _ (List.mem_map.2 ⟨r, hr, rfl⟩),
      Table.deleteWhere_eq_self.2 fun r hr => h .insights _ (List.mem_map.2 ⟨r, hr, rfl⟩),
      Table.deleteWhere_eq_self.2 fun r hr => h .inconclusive _ (List.mem_map.2 ⟨r, hr, rfl⟩),
      Table.deleteWhere_eq_self.2 fun r hr => h .sourceRuns _ (List.mem_map.2 ⟨r, hr, rfl⟩)]

/-! ### One policy -/

theorem cutoff_error {now : Micros} {days : Int} {e : PyError} (h : cutoff now days = .error e) :
    e.cls = "OverflowError" := by
  simp only [cutoff, timedelta] at h
  split at h
  · rename_i e' htimedelta
    split at htimedelta
    · cases htimedelta
    · split at htimedelta <;> (cases htimedelta; cases h; rfl)
  · split at h
    · cases h
      rfl
    · cases h

/-- What applying a policy of the session's own tenant comes to. -/
inductive Applied (bound : Uuid) (world : World) (db : Database) (policy : Policy) :
    Except PyError (Database × Nat) → Prop where
  | refused (e : PyError) (value : e.cls = "ValueError") (none : limit world policy = none)
      (fits : ¬ Overflows world policy) : Applied bound world db policy (.error e)
  | escapes (e : PyError) (overflow : e.cls = "OverflowError") (exceeds : Overflows world policy) :
      Applied bound world db policy (.error e)
  | deleted (table : AllowedTable) (cutoff : Micros)
      (some : limit world policy = some (table, cutoff)) : Applied bound world db policy
        (.ok (Function.update db bound ((db bound).delete table cutoff),
          ((db bound).times table).countP (· < cutoff)))

theorem applyRetention_applied (bound : Uuid) (world : World) (db : Database) (policy : Policy) :
    Applied bound world db policy (applyRetention db bound policy.tableName policy.retentionDays
      bound (world.now policy.id)) := by
  rw [applyRetention]
  cases htable : AllowedTable.parse policy.tableName with
  | none =>
    refine .refused _ rfl (by simp [limit, htable]) ?_
    rintro ⟨hallowed, _⟩
    rw [htable] at hallowed
    cases hallowed
  | some table =>
    by_cases hneg : policy.retentionDays < 0
    · simp only [if_pos hneg]
      refine .refused _ rfl ?_ fun hover => absurd hneg (Int.not_lt.2 hover.2.1)
      simp only [limit, htable]
      split <;> simp_all
    · simp only [if_neg hneg]
      cases hcutoff : cutoff (world.now policy.id) policy.retentionDays with
      | error e =>
        refine .escapes e (cutoff_error hcutoff) ⟨by simp [htable], Int.not_lt.1 hneg, ?_⟩
        simp [limit, htable, hcutoff]
      | ok cutoff =>
        simp only [if_true]
        exact .deleted table cutoff (by simp [limit, htable, hcutoff, hneg])

/-! ### A run of the policies -/

/-- A row of the policies afterwards: the same policy, enabled or not. -/
structure Marked (p q : Policy) (enabled : Bool) : Prop where
  id : q.id = p.id
  tableName : q.tableName = p.tableName
  retentionDays : q.retentionDays = p.retentionDays
  enabled : q.enabled = enabled

/-- The policies of `done` have been applied to `d`, or disabled. -/
structure Settled (world : World) (done : List Policy) (d d' : TenantData) : Prop where
  store : d'.store = purge (fun table ts => done.any fun p => dooms world p table ts) d
  observationIngestedAt : d'.observationIngestedAt = d.observationIngestedAt
  chargeIngestedAt : d'.chargeIngestedAt = d.chargeIngestedAt
  policies : ∀ p ∈ d.policies, ∃ q ∈ d'.policies,
    Marked p q (if p ∈ done then (limit world p).isSome else p.enabled)

theorem Settled.nil (world : World) (d : TenantData) : Settled world [] d d where
  store := by simp
  observationIngestedAt := rfl
  chargeIngestedAt := rfl
  policies := fun p hp => ⟨p, hp, rfl, rfl, rfl, by simp⟩

/-- The row of one more policy is saved. -/
theorem put_marked {world : World} {done : List Policy} {d d' : TenantData} {p saved : Policy}
    (h : Settled world done d d') (hp : p ∈ d.policies)
    (hsaved : Marked p saved (limit world p).isSome) :
    ∀ r ∈ d.policies, ∃ q ∈ d'.policies.put saved,
      Marked r q (if r ∈ done ++ [p] then (limit world r).isSome else r.enabled) := by
  intro r hr
  by_cases heq : r = p
  · subst heq
    exact ⟨saved, Table.mem_put_self _ _, by simpa using hsaved⟩
  · obtain ⟨q, hq, hmarked⟩ := h.policies r hr
    have hne : q.id ≠ saved.id := fun hid =>
      heq (Table.eq_of_key hr hp (hmarked.id.symm.trans (hid.trans hsaved.id)))
    exact ⟨q, Table.mem_put.2 (.inr ⟨hq, hne⟩), by simpa [heq] using hmarked⟩

/-- A purge does not look at the policies. -/
theorem purge_congr {d d' : TenantData} (hstore : d.store = d'.store)
    (hobservation : d.observationIngestedAt = d'.observationIngestedAt)
    (hcharge : d.chargeIngestedAt = d'.chargeIngestedAt) (doomed : AllowedTable → Micros → Bool) :
    purge doomed d = purge doomed d' := by
  cases d
  cases d'
  cases hstore
  cases hobservation
  cases hcharge
  rfl

/-- One policy more. -/
theorem Settled.snoc {world : World} {done : List Policy} {d d' d'' : TenantData} {p : Policy}
    (h : Settled world done d d') (hp : p ∈ d.policies) (saved : Policy)
    (hsaved : Marked p saved (limit world p).isSome)
    (hstore : d''.store = purge (dooms world p) d')
    (hobservation : d''.observationIngestedAt = d'.observationIngestedAt)
    (hcharge : d''.chargeIngestedAt = d'.chargeIngestedAt)
    (hpolicies : d''.policies = d'.policies.put saved) : Settled world (done ++ [p]) d d'' where
  store := by
    let before : AllowedTable → Micros → Bool := fun table ts =>
      done.any fun p => dooms world p table ts
    have hboth : purge (dooms world p) d' =
        purge (dooms world p) { d with store := purge before d } := by
      apply purge_congr
      · exact h.store
      · exact h.observationIngestedAt
      · exact h.chargeIngestedAt
    rw [hstore, hboth, purge_purge]
    simp [before]
  observationIngestedAt := hobservation.trans h.observationIngestedAt
  chargeIngestedAt := hcharge.trans h.chargeIngestedAt
  policies := by
    rw [hpolicies]
    exact put_marked h hp hsaved

theorem applyPolicy_settled {world : World} {done : List Policy} {d : TenantData} {run : Progress}
    {p : Policy} (h : Settled world done d (run.db defaultTenantId)) (hp : p ∈ d.policies)
    (henabled : p.enabled = true) (hfits : ¬ Overflows world p) :
    ∃ run', applyPolicy defaultTenantId world run p = .ok run' ∧
      Settled world (done ++ [p]) d (run'.db defaultTenantId) ∧
      ∀ tenant, tenant ≠ defaultTenantId → run'.db tenant = run.db tenant := by
  have happlied := applyRetention_applied defaultTenantId world run.db p
  rw [applyPolicy]
  cases hresult : applyRetention run.db defaultTenantId p.tableName p.retentionDays
      defaultTenantId (world.now p.id) with
  | error e =>
    rw [hresult] at happlied
    cases happlied with
    | escapes _ _ exceeds => exact absurd exceeds hfits
    | refused _ value hnone _ =>
      simp only [if_pos value]
      refine ⟨_, rfl, h.snoc hp { p with enabled := false } ⟨rfl, rfl, rfl, by rw [hnone]; rfl⟩
        ?_ ?_ ?_ ?_, fun tenant hne => Function.update_of_ne hne _ _⟩
      all_goals simp only [Progress.save, Function.update_self]
      have hdooms : dooms world p = fun _ _ => false := by
        funext table ts
        simp [dooms, hnone]
      rw [hdooms, purge_none]
  | ok out =>
    obtain ⟨db, deleted⟩ := out
    rw [hresult] at happlied
    cases happlied with
    | deleted table cutoff hlimit =>
      let saved : Policy := { p with
        lastAppliedAt := some (world.appliedAt p.id)
        lastDeletedCount := some (((run.db defaultTenantId).times table).countP (· < cutoff)) }
      refine ⟨_, rfl, h.snoc hp saved ⟨rfl, rfl, rfl, ?_⟩ ?_ ?_ ?_ ?_, fun tenant hne => ?_⟩
      · rw [hlimit]
        exact henabled
      all_goals simp only [Progress.save, Function.update_self]
      · rw [delete_eq]
        refine congrArg (purge · _) (funext₂ fun t ts => ?_)
        simp [dooms, hlimit]
      · rfl
      · rfl
      · rfl
      · rw [Function.update_of_ne hne, Function.update_of_ne hne]

theorem applyPolicies_settled {world : World} {d : TenantData} (rest : List Policy) :
    ∀ {done : List Policy} (run : Progress), Settled world done d (run.db defaultTenantId) →
      (∀ p ∈ rest, p ∈ d.policies ∧ p.enabled = true ∧ ¬ Overflows world p) →
      ∃ run', rest.foldlM (applyPolicy defaultTenantId world) run = .ok run' ∧
        Settled world (done ++ rest) d (run'.db defaultTenantId) ∧
        ∀ tenant, tenant ≠ defaultTenantId → run'.db tenant = run.db tenant := by
  induction rest with
  | nil =>
    intro done run h _
    exact ⟨run, rfl, by rwa [List.append_nil], fun _ _ => rfl⟩
  | cons p rest ih =>
    intro done run h hrest
    obtain ⟨hp, henabled, hfits⟩ := hrest p List.mem_cons_self
    obtain ⟨run₁, hrun₁, hsettled₁, hothers₁⟩ := applyPolicy_settled h hp henabled hfits
    obtain ⟨run', hrun', hsettled, hothers⟩ :=
      ih run₁ hsettled₁ fun q hq => hrest q (List.mem_cons_of_mem p hq)
    refine ⟨run', Loop.foldlM_cons_ok.2 ⟨run₁, hrun₁, hrun'⟩, ?_, fun tenant hne => ?_⟩
    · rwa [List.append_assoc] at hsettled
    · exact (hothers tenant hne).trans (hothers₁ tenant hne)

/-- A policy whose cutoff overflows ends the run, wherever it stands. -/
theorem applyPolicy_overflows {world : World} {run run' : Progress} {p : Policy}
    (h : applyPolicy defaultTenantId world run p = .ok run') : ¬ Overflows world p := by
  intro hover
  have happlied := applyRetention_applied defaultTenantId world run.db p
  rw [applyPolicy] at h
  cases hresult : applyRetention run.db defaultTenantId p.tableName p.retentionDays
      defaultTenantId (world.now p.id) with
  | error e =>
    rw [hresult] at happlied h
    cases happlied with
    | refused _ _ _ fits => exact fits hover
    | escapes _ overflow _ =>
      have hvalue : ¬ e.cls = "ValueError" := by rw [overflow]; decide
      simp only [if_neg hvalue] at h
      cases h
  | ok out =>
    rw [hresult] at happlied
    cases happlied with
    | deleted table cutoff hlimit =>
      rw [hover.2.2] at hlimit
      cases hlimit

theorem applyPolicies_overflows {world : World} {policies : List Policy} :
    ∀ {run run' : Progress},
      policies.foldlM (applyPolicy defaultTenantId world) run = .ok run' →
        ∀ p ∈ policies, ¬ Overflows world p := by
  induction policies with
  | nil => exact fun _ p hp => by cases hp
  | cons p policies ih =>
    intro run run' h q hq
    obtain ⟨run₁, hrun₁, hrest⟩ := Loop.foldlM_cons_ok.1 h
    rcases List.mem_cons.1 hq with rfl | hq
    · exact applyPolicy_overflows hrun₁
    · exact ih hrest q hq

/-! ## The law -/

/-- The policies that cannot be applied are disabled, what has expired is gone, and so is nothing
else. -/
structure Contained (db : Database) (bound : Uuid) (world : World) (after : Database) : Prop where
  policies : ∀ p ∈ (db bound).policies, ∃ q ∈ (after bound).policies,
    Marked p q (p.enabled && (limit world p).isSome)
  purged : (after bound).store = purge (expired world (db bound)) (db bound)
  others : ∀ tenant, tenant ≠ bound → after tenant = db tenant

/-- The run returns, and what it leaves behind is that. -/
def RunsContained (db : Database) (bound : Uuid) (world : World) : Prop :=
  ∃ after results, applyAllEnabled db bound world = .ok (after, results) ∧
    Contained db bound world after

theorem applyAllEnabled_ok {db after : Database} {bound : Uuid} {world : World}
    {results : Dict String Int} : applyAllEnabled db bound world = .ok (after, results) ↔
      (world.fetch (selectPolicies db bound)).foldlM (applyPolicy bound world) ⟨db, .empty⟩ =
        .ok ⟨after, results⟩ := by
  rw [applyAllEnabled]
  cases (world.fetch (selectPolicies db bound)).foldlM (applyPolicy bound world) ⟨db, .empty⟩ with
  | error e => exact iff_of_false (fun h => by cases h) fun h => by cases h
  | ok run =>
    obtain ⟨db', results'⟩ := run
    constructor
    · intro h
      cases h
      rfl
    · intro h
      cases h
      rfl

theorem mem_fetch {db : Database} {world : World} {p : Policy} :
    p ∈ world.fetch (selectPolicies db defaultTenantId) ↔
      p ∈ (db defaultTenantId).policies ∧ p.enabled = true := by
  rw [(world.fetch_perm _).mem_iff, selectPolicies, if_pos rfl, List.mem_filter, Table.mem_def]

theorem contained_default (db : Database) (world : World) :
    RunsContained db defaultTenantId world ↔
      ∀ p ∈ (db defaultTenantId).policies, p.enabled = true → ¬ Overflows world p := by
  constructor
  · rintro ⟨after, results, hrun, _⟩ p hp henabled
    exact applyPolicies_overflows (applyAllEnabled_ok.1 hrun) p (mem_fetch.2 ⟨hp, henabled⟩)
  · intro hfits
    obtain ⟨⟨after, results⟩, hrun, hsettled, hothers⟩ :=
      applyPolicies_settled (world.fetch (selectPolicies db defaultTenantId)) ⟨db, .empty⟩
        (Settled.nil world (db defaultTenantId)) fun p hp =>
          have hmem := mem_fetch.1 hp
          ⟨hmem.1, hmem.2, hfits p hmem.1 hmem.2⟩
    refine ⟨after, results, applyAllEnabled_ok.2 hrun, ?_, ?_, hothers⟩
    · intro p hp
      obtain ⟨q, hq, hmarked⟩ := hsettled.policies p hp
      refine ⟨q, hq, hmarked.id, hmarked.tableName, hmarked.retentionDays, ?_⟩
      rw [hmarked.enabled, List.nil_append]
      cases henabled : p.enabled with
      | true => simp [mem_fetch.2 ⟨hp, henabled⟩]
      | false =>
        have hnot : p ∉ world.fetch (selectPolicies db defaultTenantId) := fun hmem => by
          rw [(mem_fetch.1 hmem).2] at henabled
          cases henabled
        simp [hnot]
    · refine hsettled.store.trans (congrArg (purge · _) (funext₂ fun table ts => ?_))
      rw [List.nil_append, expired, Bool.eq_iff_iff, List.any_eq_true, List.any_eq_true]
      refine exists_congr fun p => and_congr_left fun _ => ?_
      rw [mem_fetch, List.mem_filter, Table.mem_def]

/-- A session of another tenant selects no policy at all. -/
theorem applyAllEnabled_other (db : Database) {bound : Uuid} (hbound : bound ≠ defaultTenantId)
    (world : World) : applyAllEnabled db bound world = .ok (db, .empty) := by
  have hnone : world.fetch (selectPolicies db bound) = [] := by
    have hperm := world.fetch_perm (selectPolicies db bound)
    rw [selectPolicies, if_neg hbound.symm] at hperm ⊢
    exact hperm.eq_nil
  rw [applyAllEnabled, hnone]
  rfl

theorem contained_other (db : Database) {bound : Uuid} (hbound : bound ≠ defaultTenantId)
    (world : World) : RunsContained db bound world ↔
      (∀ p ∈ (db bound).policies, p.enabled = true → (limit world p).isSome = true) ∧
        ∀ table, ∀ ts ∈ (db bound).times table, expired world (db bound) table ts = false := by
  have hrun := applyAllEnabled_other db hbound world
  rw [← purge_eq_self]
  constructor
  · rintro ⟨after, results, hafter, hcontained⟩
    rw [hrun] at hafter
    cases hafter
    refine ⟨fun p hp henabled => ?_, hcontained.purged.symm⟩
    obtain ⟨q, hq, hmarked⟩ := hcontained.policies p hp
    have hsame : q = p := Table.eq_of_key hq hp hmarked.id
    have hkept := hmarked.enabled
    rw [hsame, henabled, Bool.true_and] at hkept
    exact hkept.symm
  · rintro ⟨happlicable, hpurge⟩
    refine ⟨db, .empty, hrun, fun p hp => ⟨p, hp, rfl, rfl, rfl, ?_⟩, hpurge.symm, fun _ _ => rfl⟩
    cases henabled : p.enabled with
    | true => simp [happlicable p hp henabled]
    | false => rfl

/-- For any database, tenant, clocks and order of the policies. -/
theorem runsContained_iff (db : Database) (bound : Uuid) (world : World) :
    RunsContained db bound world ↔
      (bound = defaultTenantId ∧
        ∀ p ∈ (db bound).policies, p.enabled = true → ¬ Overflows world p) ∨
      (bound ≠ defaultTenantId ∧
        (∀ p ∈ (db bound).policies, p.enabled = true → (limit world p).isSome = true) ∧
        ∀ table, ∀ ts ∈ (db bound).times table, expired world (db bound) table ts = false) := by
  by_cases hbound : bound = defaultTenantId
  · subst hbound
    simpa using contained_default db world
  · simpa [hbound] using contained_other db hbound world

/-! ## A policy of a million days, and one of another tenant -/

def millionDays : Policy := ⟨0, "observations", 1000000, true, none, none⟩

def oneYear : Policy := ⟨0, "insights", 365, true, none, none⟩

def withPolicy (s : Store) (policy : Policy) : TenantData where
  store := s
  observationIngestedAt _ := 0
  chargeIngestedAt _ := 0
  policies := Table.empty.put policy

def idle : InsightRow :=
  ⟨0, "idle_rds", none, none, .info, "idle", [], 0, none, none, none⟩

def oldInsight : Store := { Store.empty with insights := Table.empty.put idle }

/-- The default tenant has a policy of 2700 years, and the tenant 2 an insight of 1970. -/
def twoTenants : Database := fun tenant =>
  if tenant = 2 then withPolicy oldInsight oneYear else withPolicy Store.empty millionDays

/-- The clock reads a day of 2026. -/
def today : World where
  fetch := id
  fetch_perm _ := List.Perm.refl _
  now _ := 20454 * Micros.day
  appliedAt _ := 20454 * Micros.day

/-- The one run raises, the other one deletes nothing. -/
theorem not_contained :
    ¬ RunsContained twoTenants defaultTenantId today ∧ ¬ RunsContained twoTenants 2 today := by
  constructor
  · rintro ⟨after, results, hrun, _⟩
    have hraises : (applyAllEnabled twoTenants defaultTenantId today).isOk = false := by
      decide +kernel
    rw [hrun] at hraises
    cases hraises
  · rintro ⟨after, results, hrun, hcontained⟩
    have hother : (2 : Uuid) ≠ defaultTenantId := by decide
    have hkept := applyAllEnabled_other twoTenants hother today
    rw [hrun] at hkept
    cases hkept
    have hold : expired today (twoTenants 2) .insights 0 = false :=
      purge_eq_self.1 hcontained.purged.symm .insights 0 (by decide)
    have hexpired : expired today (twoTenants 2) .insights 0 = true := by decide +kernel
    rw [hexpired] at hold
    cases hold

end Retention

end Constat
