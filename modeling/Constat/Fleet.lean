import Constat.CollectTargets
import Constat.Completion
import Constat.Endpoints

/-!
# Fleet

The life of the persisted collect targets, and the collect with an empty body that scans all of
them: `DELETE /collect/targets/{aws_account_id}` of `routers/collect_targets.py`, `_persisted_targets`
and `enqueue_all_persisted_targets` of `routers/aws.py`, over `list_targets` and `delete`.

* `step`                  — the targets after an import or a delete.
* `onboarded`             — the row of an account that was accepted last, unless it was deleted since.
* `persistedTargets`      — the targets of a collect, or the F-06 check they fail.
* `fleet_collected`       — a collect hands the queue an item for each region of each onboarded
                            account, with the role and the secret of its row; no check of it fails,
                            and the job keeps the error of a queue that raises.
* `fleet_job_complete_iff` — the job of such a collect is complete when all of its items have left a
                            run and no onboarded row names a region twice.
-/

namespace Constat

namespace Fleet

open Collectors (defaultRegions)
open CollectJobs (nonemptyList workItems)
open CollectTargets
open Collector (TargetAccount regionsOf)
open Idempotency (HttpException CollectRequest)
open Py
open Trace

/-! ## The targets -/

def deletedRow (s : TargetStore) (account actor : String) : AuditEventRow where
  id := s.auditEvents.next
  actor := actor
  action := "collect_target_deleted"
  targetType := some "collect_targets"
  targetId := some account
  metadata := [("deleted", .int 1)]

def deleteTarget (s : TargetStore) (account actor : String) : Except HttpException TargetStore :=
  match s.targets.get? account with
  | none => .error ⟨404, "unknown collect target " ++ account⟩
  | some _ => .ok ⟨s.targets.pop account, s.auditEvents.put (deletedRow s account actor)⟩

inductive Event where
  | imported (request : CollectTargets.Request) (clock : Nat → Micros) (actor : String)
  | deleted (account actor : String)

/-- A request that raises or is refused commits nothing. -/
def step (s : TargetStore) : Event → TargetStore
  | .imported request clock actor =>
    match importTargets clock actor s request with
    | .error _ => s
    | .ok (s', _) => s'
  | .deleted account actor =>
    match deleteTarget s account actor with
    | .error _ => s
    | .ok s' => s'

/-! ## The collect -/

/-- The order of the select. -/
structure Fetch where
  order : List (String × CollectTarget) → List (String × CollectTarget)
  perm : ∀ l, List.Perm (order l) l

/-- The F-06 check of `TargetIn`. -/
def targetIn (p : String × CollectTarget) : Except PyError TargetAccount :=
  if p.2.roleArn ≠ "" ∧ p.2.externalId = "" then
    .error ⟨"ValidationError", "Value error, external_id is required when role_arn is set"⟩
  else .ok {
    awsAccountId := p.1
    roleArn := some p.2.roleArn
    externalId := some p.2.externalId
    name := p.2.name
    regions := nonemptyList p.2.regions
    resourceTypes := nonemptyList p.2.resourceTypes }

def persistedTargets (fetch : Fetch) (s : TargetStore) : Except PyError (List TargetAccount) :=
  (fetch.order s.targets.items).mapM targetIn

/-- A session, the column `enqueue_error` of the jobs, and the batches handed to the queue. -/
structure Backend where
  session : DbSession
  enqueueErrors : Dict Uuid String
  sends : List (List WorkItem)

/-- The UPDATE of `mark_enqueue_failed`, and its commit. -/
def markEnqueueFailed (db : Backend) (job : Uuid) (error : String) : Backend :=
  if (CollectJobs.getJob db.session.working job).isSome then
    { db with session := db.session.commit, enqueueErrors := db.enqueueErrors.set job error }
  else { db with session := db.session.commit }

/-- `create_and_enqueue_collect_job`; what it raises is an EnqueueError of the job. -/
def createAndEnqueueCollectJob (db : Backend) (actor : String) (targets : List TargetAccount)
    (force dryRun : Bool) (sendError : Option PyError) :
    Backend × Except (Uuid × PyError) (Uuid × Nat) :=
  let (session, job, items) :=
    CollectJobs.createAndEnqueueCollectJob db.session actor targets force dryRun
  let db := { db with session := session, sends := db.sends ++ [items] }
  match sendError with
  | some cause => (markEnqueueFailed db job.jobId cause.describe, .error (job.jobId, cause))
  | none => (db, .ok (job.jobId, items.length))

/-- The message of `_validate_resource_types`. -/
def unknownText (unknown : List String) : String :=
  "unknown resource_type(s) " ++ Idempotency.listText unknown ++ " (known: " ++
    Idempotency.listText ((Collector.jobRegistry.map (·.key)).insertionSort (· ≤ ·)) ++ ")"

/-- `trigger_aws_collect` without targets in the body. -/
def collectAll (fetch : Fetch) (s : TargetStore) (actor : String) (force dryRun : Bool)
    (sendError : Option PyError) (db : Backend) :
    Backend × Except HttpException Endpoints.Response :=
  match persistedTargets fetch s with
  | .error _ => (db, .error Endpoints.internalServerError)
  | .ok targets =>
    if targets.isEmpty then
      (db, .error ⟨422, "no targets in the request body and no persisted collect_targets " ++
        "— import them first via POST /collect/targets/import"⟩)
    else
      match Idempotency.unknownResourceTypes targets with
      | some unknown => (db, .error ⟨422, unknownText unknown⟩)
      | none =>
        match createAndEnqueueCollectJob db actor targets force dryRun sendError with
        | (db, .error (job, cause)) => (db, .error ⟨503, Idempotency.enqueueError job cause⟩)
        | (db, .ok (job, count)) => (db, .ok (.operated (.collectAccepted job count)))

/-- The entry point of the CLI. -/
def enqueueAllPersistedTargets (fetch : Fetch) (s : TargetStore) (actor : String)
    (sendError : Option PyError) (db : Backend) : Backend × Except PyError (Uuid × Nat) :=
  match persistedTargets fetch s with
  | .error e => (db, .error e)
  | .ok targets =>
    if targets.isEmpty then
      (db, .error ⟨"ValueError",
        "no persisted collect_targets — import them first via POST /collect/targets/import"⟩)
    else
      match Idempotency.unknownResourceTypes targets with
      | some unknown => (db, .error ⟨"ValueError", unknownText unknown⟩)
      | none =>
        let out := createAndEnqueueCollectJob db actor targets false false sendError
        (out.1, out.2.mapError fun failed =>
          ⟨"EnqueueError", Idempotency.enqueueError failed.1 failed.2⟩)

/-- The CLI and the endpoint leave the same behind, and both refuse or create the same job. -/
theorem enqueueAll_eq_collectAll (fetch : Fetch) (s : TargetStore) (actor : String)
    (sendError : Option PyError) (db : Backend) :
    let cli := enqueueAllPersistedTargets fetch s actor sendError db
    let api := collectAll fetch s actor false false sendError db
    cli.1 = api.1 ∧ api.2.toOption = cli.2.toOption.map fun out =>
      .operated (.collectAccepted out.1 out.2) := by
  simp only [enqueueAllPersistedTargets, collectAll]
  cases persistedTargets fetch s with
  | error e => exact ⟨rfl, rfl⟩
  | ok targets =>
    simp only
    cases targets.isEmpty with
    | true => exact ⟨rfl, rfl⟩
    | false =>
      simp only [Bool.false_eq_true, if_false]
      cases Idempotency.unknownResourceTypes targets with
      | some unknown => exact ⟨rfl, rfl⟩
      | none => cases sendError <;> exact ⟨rfl, rfl⟩

/-- The session and the answer are those of the endpoint on the persisted targets. -/
theorem collectAll_endpoint {fetch : Fetch} {s : TargetStore} {targets : List TargetAccount}
    (h : persistedTargets fetch s = .ok targets) (actor : String) (force dryRun : Bool)
    (sendError : Option PyError) (db : Backend) :
    let all := collectAll fetch s actor force dryRun sendError db
    let one := Endpoints.triggerAwsCollect ⟨actor, none, force, dryRun, targets, sendError⟩ none
      db.session
    all.1.session.working = one.1.working ∧ all.1.session.committed = one.1.committed ∧
      all.2 = one.2 := by
  simp only [collectAll, h, Endpoints.triggerAwsCollect, Option.getD_none, List.isEmpty_nil,
    if_true]
  cases targets.isEmpty with
  | true => exact ⟨rfl, rfl, rfl⟩
  | false =>
    simp only [Bool.false_eq_true, if_false]
    cases Idempotency.unknownResourceTypes targets with
    | some unknown => exact ⟨rfl, rfl, rfl⟩
    | none =>
      cases sendError with
      | none => exact ⟨rfl, rfl, rfl⟩
      | some cause =>
        simp only [createAndEnqueueCollectJob, markEnqueueFailed]
        split <;> exact ⟨rfl, rfl, rfl⟩

/-! ## What has been onboarded -/

/-- The rows of an import that is stored. -/
def rowsOf (request : CollectTargets.Request) : Option (List (Nat × Csv.Row)) :=
  match request.csvText with
  | .error _ => none
  | .ok text =>
    if (Csv.read text).error = none ∧ importable (Csv.read text) = true then
      some (Csv.read text).rows
    else none

/-- What an event says of an account. -/
def heard (known : String → Option CleanRow) (e : Event) (account : String) : Option CleanRow :=
  match e with
  | .imported request _ _ =>
    ((rowsOf request).bind fun rows => lastAccepted rows account).or (known account)
  | .deleted gone _ => if account = gone then none else known account

def onboarded (es : List Event) : String → Option CleanRow := es.foldl heard fun _ => none

/-- What is stored is what is known, and nothing else. -/
def Knows (s : TargetStore) (known : String → Option CleanRow) : Prop :=
  ∀ account, held s.targets account = (known account).map fun clean => (clean, none)

/-! ### One event -/

theorem importTargets_rowsOf (clock : Nat → Micros) (actor : String) (s : TargetStore)
    (request : CollectTargets.Request) :
    (step s (.imported request clock actor)).targets =
      (rowsOf request).elim s.targets fun rows => (importRows clock s.targets rows).targets := by
  unfold step rowsOf
  cases hcsv : request.csvText with
  | error e => simp [importTargets, hcsv]
  | ok text =>
    cases hread : (Csv.read text).error with
    | none =>
      have hrun := importTargets_of_csv hcsv hread clock actor s
      simp only [hrun]
      cases importable (Csv.read text) <;> simp [hread]
    | some e =>
      simp only [importTargets, hcsv, hread]
      cases (Csv.read text).fieldnames with
      | none => simp
      | some names => cases importable (Csv.read text) <;> simp

theorem step_knows {s : TargetStore} {known : String → Option CleanRow} (h : Knows s known)
    (e : Event) : Knows (step s e) (heard known e) := by
  intro account
  cases e with
  | imported request clock actor =>
    rw [importTargets_rowsOf, heard]
    cases hrows : rowsOf request with
    | none => exact h account
    | some rows =>
      show held (importRows clock s.targets rows).targets account = _
      rw [importRows_held, h account]
      cases hlast : lastAccepted rows account <;> simp [hlast]
  | deleted gone actor =>
    have hother := h account
    simp only [step, deleteTarget, heard]
    cases hget : s.targets.get? gone with
    | none =>
      by_cases heq : account = gone
      · subst heq
        simp [held, hget]
      · rw [if_neg heq]
        exact hother
    | some target =>
      simp only [held, Dict.get?_pop] at hother ⊢
      by_cases heq : account = gone
      · simp [heq]
      · simpa [heq] using hother

/-- Whatever is imported and deleted: what is stored is what the last event on each account says. -/
theorem exec_knows (es : List Event) {s : TargetStore} {known : String → Option CleanRow}
    (h : Knows s known) : Knows (exec step s es) (es.foldl heard known) := by
  induction es generalizing s known with
  | nil => exact h
  | cons e es ih => exact ih (step_knows h e)

/-! ### Rows -/

/-- What the checks of the import leave of a row. -/
structure Sound (clean : CleanRow) : Prop where
  account : isAccountId clean.awsAccountId.toList = true
  roleArn : clean.roleArn ≠ ""
  externalId : clean.externalId ≠ ""
  regions : ∀ region ∈ clean.regions.getD [], region ∈ defaultRegions

theorem ofList_ne_empty {cs : List Char} (h : cs ≠ []) : String.ofList cs ≠ "" := by
  intro heq
  have hlist := congrArg String.toList heq
  rw [String.toList_ofList] at hlist
  exact h hlist

theorem unknownRegions_nil {regions : List String} (h : unknownRegions regions = []) :
    ∀ region ∈ regions, region ∈ defaultRegions := by
  intro region hregion
  by_contra hunknown
  have hmem : region ∈ unknownRegions regions := by
    rw [unknownRegions, List.mem_insertionSort, List.mem_dedup, List.mem_filter]
    exact ⟨hregion, by simpa using hunknown⟩
  rw [h] at hmem
  cases hmem

theorem checkRow_sound {row : Csv.Row} {clean : CleanRow} (h : checkRow row = .ok clean) :
    Sound clean := by
  simp only [checkRow] at h
  split at h
  · cases h
  · rename_i haccount
    split at h
    · cases h
    · rename_i hrole
      split at h
      · cases h
      · rename_i hexternal
        split at h
        · cases h
        · rename_i hregions
          rw [Bool.not_eq_true, Bool.not_eq_false'] at haccount
          cases h
          refine ⟨?_, ofList_ne_empty hrole, ofList_ne_empty hexternal, ?_⟩
          · rw [String.toList_ofList]
            exact haccount
          · exact unknownRegions_nil (not_not.1 hregions)

theorem lastAccepted_sound {rows : List (Nat × Csv.Row)} {account : String} {clean : CleanRow}
    (h : lastAccepted rows account = some clean) : Sound clean ∧ clean.awsAccountId = account := by
  obtain ⟨hmem, haccount⟩ := List.mem_filter.1 (List.mem_of_getLast? h)
  obtain ⟨row, _, haccepted⟩ := List.mem_filterMap.1 hmem
  refine ⟨?_, of_decide_eq_true haccount⟩
  apply @checkRow_sound row.2
  unfold acceptedRow at haccepted
  cases hcheck : checkRow row.2 with
  | error e => simp [hcheck, Except.toOption] at haccepted
  | ok c =>
    simp only [hcheck, Except.toOption, Option.some.injEq] at haccepted
    rw [haccepted]

theorem foldl_heard_sound (es : List Event) {known : String → Option CleanRow}
    (h : ∀ account clean, known account = some clean → Sound clean ∧ clean.awsAccountId = account)
    {account : String} {clean : CleanRow} (hclean : es.foldl heard known account = some clean) :
    Sound clean ∧ clean.awsAccountId = account := by
  induction es generalizing known with
  | nil => exact h account clean hclean
  | cons e es ih =>
    refine ih (fun account clean hheard => ?_) hclean
    cases e with
    | imported request clock actor =>
      rw [heard, Option.or_eq_some_iff] at hheard
      rcases hheard with hlast | ⟨_, hknown⟩
      · obtain ⟨rows, _, hlast⟩ := Option.bind_eq_some_iff.1 hlast
        exact lastAccepted_sound hlast
      · exact h account clean hknown
    | deleted gone actor =>
      rw [heard] at hheard
      split at hheard
      · cases hheard
      · exact h account clean hheard

theorem onboarded_sound {es : List Event} {account : String} {clean : CleanRow}
    (h : onboarded es account = some clean) : Sound clean ∧ clean.awsAccountId = account :=
  foldl_heard_sound es (fun _ _ hnone => by cases hnone) h

/-! ## The targets of a collect -/

/-- The target of a row; the import leaves the resource types open. -/
def targetOf (clean : CleanRow) : TargetAccount where
  awsAccountId := clean.awsAccountId
  roleArn := some clean.roleArn
  externalId := some clean.externalId
  name := clean.name
  regions := nonemptyList clean.regions
  resourceTypes := none

/-- `targets` has one target for each account that is onboarded, and no other. -/
structure Covers (known : String → Option CleanRow) (targets : List TargetAccount) : Prop where
  mem : ∀ t, t ∈ targets ↔ ∃ account clean, known account = some clean ∧ t = targetOf clean
  nodup : (targets.map (·.awsAccountId)).Nodup

theorem map_id_of_targetIn {l : List (String × CollectTarget)} {targets : List TargetAccount}
    (h : List.Forall₂ (fun p t => targetIn p = .ok t) l targets) :
    targets.map (·.awsAccountId) = l.map Prod.fst := by
  induction h with
  | nil => rfl
  | @cons p t l targets ht _ ih =>
    have hid : t.awsAccountId = p.1 := by
      unfold targetIn at ht
      split at ht
      · cases ht
      · cases ht
        rfl
    rw [List.map_cons, List.map_cons, hid, ih]

theorem targetIn_held {s : TargetStore} {p : String × CollectTarget} {t : TargetAccount}
    {clean : CleanRow} (hp : p ∈ s.targets.items) (ht : targetIn p = .ok t)
    (hheld : held s.targets p.1 = some (clean, none)) : t = targetOf clean := by
  have hget : s.targets.get? p.1 = some p.2 := Dict.mem_items.1 hp
  simp only [held, hget, Option.map_some, Option.some.injEq, Prod.mk.injEq] at hheld
  obtain ⟨rfl, hnone⟩ := hheld
  unfold targetIn at ht
  split at ht
  · cases ht
  · cases ht
    simp [targetOf, hnone, nonemptyList]

theorem persistedTargets_of_knows (fetch : Fetch) {s : TargetStore}
    {known : String → Option CleanRow} (h : Knows s known)
    (hsound : ∀ account clean, known account = some clean →
      Sound clean ∧ clean.awsAccountId = account) :
    ∃ targets, persistedTargets fetch s = .ok targets ∧ Covers known targets := by
  have hmem : ∀ p, p ∈ fetch.order s.targets.items ↔ p ∈ s.targets.items :=
    fun p => (fetch.perm _).mem_iff
  have hrow : ∀ p ∈ s.targets.items, ∃ clean, known p.1 = some clean ∧
      held s.targets p.1 = some (clean, none) := by
    intro p hp
    have hget : s.targets.get? p.1 = some p.2 := Dict.mem_items.1 hp
    have hheld := h p.1
    cases hknown : known p.1 with
    | none => simp [hknown, held, hget] at hheld
    | some clean => exact ⟨clean, rfl, by rw [hheld, hknown]; rfl⟩
  have hexternal : ∀ p ∈ fetch.order s.targets.items, p.2.externalId ≠ "" := by
    intro p hp
    obtain ⟨clean, hknown, hheld⟩ := hrow p ((hmem p).1 hp)
    have hget : s.targets.get? p.1 = some p.2 := Dict.mem_items.1 ((hmem p).1 hp)
    simp only [held, hget, Option.map_some, Option.some.injEq, Prod.mk.injEq] at hheld
    obtain ⟨rfl, _⟩ := hheld
    exact (hsound _ _ hknown).1.externalId
  obtain ⟨targets, hok⟩ := Loop.mapM_returns (f := targetIn) fun p hp =>
    ⟨_, if_neg fun hbad => hexternal p hp hbad.2⟩
  have hall := Loop.mapM_ok hok
  refine ⟨targets, hok, fun t => ⟨fun ht => ?_, ?_⟩, ?_⟩
  · obtain ⟨p, hp, htarget⟩ := Loop.exists_left hall ht
    obtain ⟨clean, hknown, hheld⟩ := hrow p ((hmem p).1 hp)
    exact ⟨p.1, clean, hknown, targetIn_held ((hmem p).1 hp) htarget hheld⟩
  · rintro ⟨account, clean, hknown, rfl⟩
    have hheld := h account
    rw [hknown] at hheld
    obtain ⟨target, hget, _⟩ := Option.map_eq_some_iff.1 hheld
    have hitem : (account, target) ∈ s.targets.items := Dict.mem_items.2 hget
    obtain ⟨t, ht, htarget⟩ := Loop.exists_right hall ((hmem _).2 hitem)
    rw [targetIn_held hitem htarget hheld] at ht
    exact ht
  · rw [map_id_of_targetIn hall]
    exact ((fetch.perm _).map Prod.fst).nodup_iff.2 s.targets.nodup

/-! ## The items -/

/-- The item of a region of a row: the row's role and secret, and all resource types. -/
structure ItemOf (clean : CleanRow) (region : String) (item : WorkItem) : Prop where
  account : item.awsAccountId = clean.awsAccountId
  region : item.region = region
  roleArn : item.roleArn = some clean.roleArn
  externalId : item.externalId = some clean.externalId
  resourceTypes : item.resourceTypes = none

/-- The items are those of the regions of the onboarded accounts; an account that names no region is
scanned in all of them. -/
structure Scans (known : String → Option CleanRow) (items : List WorkItem) : Prop where
  only : ∀ item ∈ items, ∃ account clean, known account = some clean ∧ clean.externalId ≠ "" ∧
    ∃ region ∈ regionsOf (targetOf clean), region ∈ defaultRegions ∧ ItemOf clean region item
  all : ∀ account clean, known account = some clean → ∀ region ∈ regionsOf (targetOf clean),
    ∃ item ∈ items, ItemOf clean region item

theorem mem_regionsOf {clean : CleanRow} (h : Sound clean) {region : String}
    (hregion : region ∈ regionsOf (targetOf clean)) : region ∈ defaultRegions := by
  have hsound := h.regions region
  unfold regionsOf targetOf nonemptyList at hregion
  cases hregions : clean.regions with
  | none => simpa [hregions] using hregion
  | some regions =>
    rw [hregions] at hsound
    cases regions with
    | nil => simpa [hregions] using hregion
    | cons r rs => exact hsound (by simpa [hregions] using hregion)

theorem scans_workItems {es : List Event} {targets : List TargetAccount}
    (h : Covers (onboarded es) targets) (job : Uuid) (force dryRun : Bool) :
    Scans (onboarded es) (workItems job targets force dryRun) := by
  constructor
  · intro item hitem
    obtain ⟨t, ht, hitem⟩ := List.mem_flatMap.1 hitem
    obtain ⟨region, hregion, rfl⟩ := List.mem_map.1 hitem
    obtain ⟨account, clean, hknown, rfl⟩ := (h.mem t).1 ht
    have hsound := (onboarded_sound hknown).1
    exact ⟨account, clean, hknown, hsound.externalId, region, hregion,
      mem_regionsOf hsound hregion, rfl, rfl, rfl, rfl, rfl⟩
  · intro account clean hknown region hregion
    have ht := (h.mem _).2 ⟨account, clean, hknown, rfl⟩
    exact ⟨_, List.mem_flatMap.2 ⟨_, ht, List.mem_map.2 ⟨region, hregion, rfl⟩⟩,
      rfl, rfl, rfl, rfl, rfl⟩

theorem unknownResourceTypes_covers {known : String → Option CleanRow}
    {targets : List TargetAccount} (h : Covers known targets) :
    Idempotency.unknownResourceTypes targets = none := by
  unfold Idempotency.unknownResourceTypes
  rw [List.find?_eq_none]
  intro types htypes
  obtain ⟨t, ht, rfl⟩ := List.mem_map.1 htypes
  obtain ⟨_, clean, _, rfl⟩ := (h.mem t).1 ht
  simp [targetOf]

/-- No account is onboarded, or the items handed to the queue are those of the onboarded accounts;
the job is stored in both cases, and with the error of the queue if there is one. -/
inductive Answered (es : List Event) (actor : String) (force dryRun : Bool)
    (sendError : Option PyError) (db : Backend) :
    Backend × Except HttpException Endpoints.Response → Prop where
  | refused (hnone : ∀ account, onboarded es account = none) :
    Answered es actor force dryRun sendError db (db, .error ⟨422,
      "no targets in the request body and no persisted collect_targets " ++
        "— import them first via POST /collect/targets/import"⟩)
  | enqueued (targets : List TargetAccount) (job : CollectJobRow) (items : List WorkItem)
      (after : Backend) (answer : Except HttpException Endpoints.Response)
      (hsome : ∃ account clean, onboarded es account = some clean)
      (hjob : job = CollectJobs.newJob db.session.working actor targets)
      (hitems : items = workItems job.jobId targets force dryRun)
      (htotal : job.totalItems = items.length) (hscans : Scans (onboarded es) items)
      (hsent : after.sends = db.sends ++ [items])
      (hstored : after.session.committed =
        { db.session.working with collectJobs := db.session.working.collectJobs.put job })
      (herrors : after.enqueueErrors = sendError.elim db.enqueueErrors fun cause =>
        db.enqueueErrors.set job.jobId cause.describe)
      (hanswer : answer = sendError.elim
        (.ok (.operated (.collectAccepted job.jobId items.length)))
        fun cause => .error ⟨503, Idempotency.enqueueError job.jobId cause⟩) :
    Answered es actor force dryRun sendError db (after, answer)

/-- The row that the mark is for has been committed. -/
theorem markEnqueueFailed_put {db : Backend} (t : Store) (job : CollectJobRow)
    (h : db.session.working = { t with collectJobs := t.collectJobs.put job }) (error : String) :
    markEnqueueFailed db job.jobId error = { db with
      session := db.session.commit, enqueueErrors := db.enqueueErrors.set job.jobId error } := by
  have hrow : CollectJobs.getJob db.session.working job.jobId = some job := by
    rw [CollectJobs.getJob, h]
    exact (Table.get?_put _ _ _).trans (if_pos rfl)
  rw [markEnqueueFailed, hrow]
  rfl

/-- Whatever has been imported and deleted, and whether or not the queue takes the items. -/
theorem fleet_collected (es : List Event) (fetch : Fetch) (actor : String) (force dryRun : Bool)
    (sendError : Option PyError) (db : Backend) :
    Answered es actor force dryRun sendError db
      (collectAll fetch (exec step ⟨.empty, .empty⟩ es) actor force dryRun sendError db) := by
  have hknows : Knows (exec step ⟨.empty, .empty⟩ es) (onboarded es) :=
    exec_knows es fun _ => rfl
  obtain ⟨targets, hok, hcovers⟩ := persistedTargets_of_knows fetch hknows
    fun account clean h => onboarded_sound h
  unfold collectAll
  simp only [hok]
  cases targets with
  | nil =>
    refine .refused fun account => ?_
    cases hknown : onboarded es account with
    | none => rfl
    | some clean => cases (hcovers.mem _).2 ⟨account, clean, hknown, rfl⟩
  | cons t ts =>
    obtain ⟨account, clean, hknown, _⟩ := (hcovers.mem t).1 List.mem_cons_self
    let job := CollectJobs.newJob db.session.working actor (t :: ts)
    have hanswered : ∀ after answer, _ → _ → _ → _ →
        Answered es actor force dryRun sendError db (after, answer) := fun after answer =>
      .enqueued (t :: ts) job _ after answer ⟨account, clean, hknown⟩ rfl rfl
        (CollectJobs.workItems_length job.jobId (t :: ts) force dryRun).symm
        (scans_workItems hcovers job.jobId force dryRun)
    rw [unknownResourceTypes_covers hcovers]
    simp only [List.isEmpty_cons, Bool.false_eq_true, if_false, createAndEnqueueCollectJob,
      CollectJobs.createAndEnqueueCollectJob]
    cases sendError with
    | none => exact hanswered _ _ rfl rfl rfl rfl
    | some cause =>
      simp only
      rw [markEnqueueFailed_put db.session.working job rfl]
      exact hanswered _ _ rfl rfl rfl rfl

/-! ## The job -/

theorem scopes_nodup_iff {targets : List TargetAccount}
    (h : (targets.map (·.awsAccountId)).Nodup) :
    (targets.flatMap fun t => (regionsOf t).map fun region => (t.awsAccountId, region)).Nodup ↔
      ∀ t ∈ targets, (regionsOf t).Nodup := by
  rw [List.nodup_flatMap]
  constructor
  · exact fun hall t ht => (hall.1 t ht).of_map
  · intro hregions
    refine ⟨fun t ht => (hregions t ht).map fun _ _ heq => (Prod.mk.inj heq).2, ?_⟩
    rw [List.Nodup, List.pairwise_map] at h
    refine h.imp fun hne x hx hy => ?_
    obtain ⟨_, _, rfl⟩ := List.mem_map.1 hx
    obtain ⟨_, _, heq⟩ := List.mem_map.1 hy
    exact hne (Prod.mk.inj heq).1.symm

theorem nodup_regionsOf (clean : CleanRow) :
    (regionsOf (targetOf clean)).Nodup ↔ (clean.regions.getD []).Nodup := by
  have hdefault : defaultRegions.Nodup := by decide
  unfold regionsOf targetOf nonemptyList
  cases clean.regions with
  | none => simpa using hdefault
  | some regions =>
    cases regions with
    | nil => simpa using hdefault
    | cons r rs => simp

/-- In every run of the workers: the job of a collect of the fleet is complete exactly when each of
its items has left a run and no account's last accepted row names a region twice. -/
theorem fleet_job_complete_iff (fp : Arith) (es : List Event) (fetch : Fetch)
    (run : List Evaluation.Event) :
    ∀ q ∈ (exec (Evaluation.step fp) Evaluation.start run).requests,
      persistedTargets fetch (exec step ⟨.empty, .empty⟩ es) = .ok q.targets →
      (CollectJobs.isJobComplete (exec (Evaluation.step fp) Evaluation.start run).store
          q.job.jobId q.job.totalItems = true ↔
        (∀ account clean, onboarded es account = some clean → (clean.regions.getD []).Nodup) ∧
          ∀ m ∈ q.messages, CollectJobs.Ran q.job.jobId
            (exec (Evaluation.step fp) Evaluation.start run).store m.item) := by
  intro q hq htargets
  have hinv : Evaluation.Inv (exec (Evaluation.step fp) Evaluation.start run) := by
    generalize hstart : Evaluation.start = s
    have hs : Evaluation.Inv s := hstart ▸ Evaluation.inv_start
    clear hq hstart
    induction run generalizing s with
    | nil => exact hs
    | cons e run ih => exact ih _ (hs.step e)
  have hknows : Knows (exec step ⟨.empty, .empty⟩ es) (onboarded es) :=
    exec_knows es fun _ => rfl
  obtain ⟨targets, hok, hcovers⟩ := persistedTargets_of_knows fetch hknows
    fun account clean h => onboarded_sound h
  cases hok.symm.trans htargets
  rw [Evaluation.isJobComplete_request hinv hq]
  refine and_congr_left fun _ => ?_
  rw [Evaluation.Request.scopes, scopes_nodup_iff hcovers.nodup]
  constructor
  · intro hregions account clean hknown
    exact (nodup_regionsOf clean).1 (hregions _ ((hcovers.mem _).2 ⟨account, clean, hknown, rfl⟩))
  · intro hrows t ht
    obtain ⟨account, clean, hknown, rfl⟩ := (hcovers.mem t).1 ht
    exact (nodup_regionsOf clean).2 (hrows account clean hknown)

def repeatedRegion : Event :=
  .imported (.text ("aws_account_id,role_arn,external_id,regions\n" ++
    "111122223333,role,ext,eu-west-1;eu-west-1\n")) (fun _ => 0) "machine:ops"

def repeatedTarget : TargetAccount where
  awsAccountId := "111122223333"
  roleArn := some "role"
  externalId := some "ext"
  name := none
  regions := some ["eu-west-1", "eu-west-1"]
  resourceTypes := none

def sweep : List Evaluation.Event :=
  .request "ops" [repeatedTarget] false false 2 ::
    (List.range 2).flatMap Evaluation.collectMessage

def inOrder : Fetch := ⟨id, fun l => List.Perm.refl l⟩

/-- Both items of the account are collected, and its job stays incomplete. -/
theorem repeated_region_incomplete :
    ∃ q ∈ (exec (Evaluation.step .exact) Evaluation.start sweep).requests,
      Evaluation.allSucceeded (exec (Evaluation.step .exact) Evaluation.start sweep) q = true ∧
      ¬ CollectJobs.isJobComplete (exec (Evaluation.step .exact) Evaluation.start sweep).store
        q.job.jobId q.job.totalItems = true := by
  obtain ⟨q, hq, htargets, hall⟩ :
      ∃ q ∈ (exec (Evaluation.step .exact) Evaluation.start sweep).requests,
        q.targets = [repeatedTarget] ∧
        Evaluation.allSucceeded (exec (Evaluation.step .exact) Evaluation.start sweep) q = true :=
    ⟨_, List.mem_cons_self, rfl, by decide +kernel⟩
  have hpersisted : persistedTargets inOrder (exec step ⟨.empty, .empty⟩ [repeatedRegion]) =
      .ok q.targets := by
    rw [htargets]
    rfl
  refine ⟨q, hq, hall, fun hcomplete => ?_⟩
  have hrows := ((fleet_job_complete_iff .exact [repeatedRegion] inOrder sweep q hq
    hpersisted).1 hcomplete).1
  have honboarded : onboarded [repeatedRegion] "111122223333" =
      some ⟨"111122223333", "role", "ext", none, some ["eu-west-1", "eu-west-1"]⟩ := by
    decide +kernel
  exact absurd (hrows _ _ honboarded) (by decide)

end Fleet

end Constat
