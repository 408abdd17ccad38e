import Constat.ApiHandlers

/-!
# Authorization

What the requests of an API with several tenants can do and see, over runs of any length.

* `step_cases`           — all that a request can do, each with what admitted it.
* `only_operators_write` — a tenant that no operator of it has written to is as it was, but for the
                           events of the reads.
* `reads_attributed`     — the audit log gains the reads that were served by an endpoint with an
                           attribution and whose record was written, in order, under the name of
                           their keys, and no other.
-/

namespace Constat

namespace Access

open ApiKeys (Principal Settings lastMatch)
open Idempotency (HttpException)
open Trace

variable {β ρ : Type}

/-! ## Who is admitted -/

/-- The principal of a key: the last entry that has it, or anyone where there are no entries. -/
def holder (cfg : Settings) (key : Option String) : Option Principal :=
  if cfg.allApiKeyEntries.isEmpty then some anonymousPrincipal
  else key.bind fun presented => lastMatch presented none cfg.allApiKeyEntries

theorem verifyApiKey_ok {cfg : Settings} {key : Option String} {p : Principal}
    (h : verifyApiKey cfg key = .ok p) :
    holder cfg key = some p ∧ optionalPrincipal cfg key = .ok p := by
  unfold verifyApiKey at h
  unfold holder optionalPrincipal
  split at h
  · rename_i hempty
    cases h
    rw [if_pos hempty]
    cases key with
    | none => exact ⟨rfl, rfl⟩
    | some presented => exact ⟨rfl, if_pos hempty⟩
  · rename_i hsome
    rw [if_neg hsome]
    cases key with
    | none => cases h
    | some presented =>
      simp only [if_neg hsome] at h ⊢
      cases hmatch : ApiKeys.matchPrincipal presented cfg.allApiKeyEntries with
      | error e => simp [hmatch] at h
      | ok matched =>
        obtain ⟨_, hlast⟩ := ApiKeys.matchPrincipal_ok hmatch
        cases matched with
        | none => simp [hmatch] at h
        | some q =>
          simp only [hmatch, Except.ok.injEq] at h
          subst h
          exact ⟨hlast.symm, rfl⟩

theorem requireOperator_ok {cfg : Settings} {key : Option String} {p : Principal}
    (h : requireOperator cfg key = .ok p) :
    verifyApiKey cfg key = .ok p ∧ p.role = .operator := by
  unfold requireOperator at h
  split at h
  · cases h
  · rename_i q hq
    split at h
    · rename_i hrole
      cases h
      exact ⟨hq, hrole⟩
    · cases h

/-- The sessions are bound to the tenant of the principal that was checked. -/
theorem optionalPrincipal_of_check {cfg : Settings} {key : Option String} {p : Principal}
    {guard : Guard} (h : guard.check cfg key = .ok p) : optionalPrincipal cfg key = .ok p := by
  cases guard with
  | unguarded =>
    unfold Guard.check at h
    cases hp : optionalPrincipal cfg key with
    | error e => simp [hp, Except.mapError] at h
    | ok q =>
      rw [hp] at h
      cases h
      rfl
  | anyKey => exact (verifyApiKey_ok h).2
  | operator => exact (verifyApiKey_ok (requireOperator_ok h).1).2

theorem resolve_ok {method : Method} {path : List String} {route : Route}
    (h : resolve method path = .ok route) :
    route ∈ routes ∧ route.method = method ∧ fits route.path path = true := by
  unfold resolve at h
  split at h
  · rename_i found hfound
    cases h
    have hfits := List.find?_some hfound
    simp only [Bool.and_eq_true, decide_eq_true_eq] at hfits
    exact ⟨List.mem_of_find?_eq_some hfound, hfits⟩
  · split at h <;> cases h

theorem admission_ok {cfg : Settings} {r : Request β} {route : Route} {p : Principal}
    (h : admission cfg r = .ok (route, p)) :
    r.tenantHeader = false ∧ resolve r.method r.path = .ok route ∧
      route.endpoint.guard.check cfg r.apiKey = .ok p := by
  unfold admission at h
  split at h
  · cases h
  · rename_i hheader
    split at h
    · cases h
    · rename_i found hfound
      cases hcheck : found.endpoint.guard.check cfg r.apiKey with
      | error e => simp [hcheck, Except.map] at h
      | ok q =>
        simp only [hcheck, Except.map, Except.ok.injEq, Prod.mk.injEq] at h
        obtain ⟨rfl, rfl⟩ := h
        exact ⟨Bool.eq_false_iff.2 hheader, hfound, hcheck⟩

/-- Every route that is not a GET asks for an operator. -/
theorem guard_of_write {route : Route} (h : route ∈ routes) (hmethod : route.method ≠ .get) :
    route.endpoint.guard = .operator := by
  have hall : ∀ r ∈ routes, r.method ≠ .get → r.endpoint.guard = .operator := by decide
  exact hall route h hmethod

/-- Only reads are attributed, each with metadata that passes the check. -/
theorem validateMetadata_attribution {endpoint : Endpoint} {a : Attribution}
    (h : endpoint.attribution = some a) (query : List String) (rowCount : Nat) :
    validateMetadata (a.metadata query rowCount) = .ok () := by
  cases endpoint <;> cases h <;> rfl

/-! ## A step -/

/-- The request carries no tenant of its own and the key of an operator of the tenant, and is not a
GET. -/
def Authorized (cfg : Settings) (tenant : Uuid) (r : Request β) : Prop :=
  r.tenantHeader = false ∧ r.method ≠ .get ∧
    ∃ p ∈ holder cfg r.apiKey, p.role = .operator ∧ p.tenantId = tenant

instance (cfg : Settings) (tenant : Uuid) (r : Request β) : Decidable (Authorized cfg tenant r) :=
  inferInstanceAs (Decidable (_ ∧ _ ∧ _))

/-- A request changes nothing, or it is a read that is attributed, or it is a write of an operator;
the tenant is that of the key. -/
theorem step_cases (cfg : Settings) (h : Handlers β ρ) (s : Tenants) (r : Request β) :
    step cfg h s r = s ∨
      (∃ route p a answer rowCount, admission cfg r = .ok (route, p) ∧ route.method = .get ∧
        route.endpoint.attribution = some a ∧
        h.read route.endpoint r.content (s p.tenantId) = .ok (answer, rowCount) ∧
        step cfg h s r = Function.update s p.tenantId
          (recordRead (s p.tenantId) p a r.query rowCount r.auditFails)) ∨
      ∃ route p, admission cfg r = .ok (route, p) ∧ Authorized cfg p.tenantId r ∧
        step cfg h s r = Function.update s p.tenantId
          (h.write route.endpoint p r.content (s p.tenantId)).1 := by
  unfold step respond
  cases hadmission : admission cfg r with
  | error e => exact .inl rfl
  | ok admitted =>
    obtain ⟨route, p⟩ := admitted
    obtain ⟨hheader, hroute, hcheck⟩ := admission_ok hadmission
    obtain ⟨hmem, hmethod, _⟩ := resolve_ok hroute
    rw [optionalPrincipal_of_check hcheck]
    simp only
    by_cases hget : route.method = .get
    · rw [hget]
      cases hread : h.read route.endpoint r.content (s p.tenantId) with
      | error e => exact .inl rfl
      | ok out =>
        cases ha : route.endpoint.attribution with
        | none => exact .inl rfl
        | some a => exact .inr (.inl ⟨route, p, a, out.1, out.2, rfl, hget, ha, hread, rfl⟩)
    · have hguard := guard_of_write hmem hget
      rw [hguard] at hcheck
      obtain ⟨hverify, hrole⟩ := requireOperator_ok hcheck
      refine .inr (.inr ⟨route, p, rfl, ?_, ?_⟩)
      · exact ⟨hheader, hmethod ▸ hget, p, (verifyApiKey_ok hverify).1, hrole, rfl⟩
      · cases hm : route.method with
        | get => exact absurd hm hget
        | post => rfl
        | patch => rfl
        | delete => rfl

/-! ## Writes -/

/-- Nothing has changed but for events of reads at the end of the audit log. -/
structure OnlyReads (t t' : Store) : Prop where
  same : { t' with auditEvents := t.auditEvents } = t
  appended : ∃ es, t'.auditEvents.rows = t.auditEvents.rows ++ es ∧
    ∀ e ∈ es, e.action = readAction

namespace OnlyReads

variable {t t' t'' : Store}

theorem refl (t : Store) : OnlyReads t t := ⟨rfl, [], by simp⟩

theorem trans (h : OnlyReads t t') (h' : OnlyReads t' t'') : OnlyReads t t'' := by
  obtain ⟨es, hes, hread⟩ := h.appended
  obtain ⟨es', hes', hread'⟩ := h'.appended
  refine ⟨?_, es ++ es', ?_, ?_⟩
  · calc { t'' with auditEvents := t.auditEvents }
        = { ({ t'' with auditEvents := t'.auditEvents } : Store) with
            auditEvents := t.auditEvents } := rfl
      _ = { t' with auditEvents := t.auditEvents } := by rw [h'.same]
      _ = t := h.same
  · rw [hes', hes, List.append_assoc]
  · exact List.forall_mem_append.2 ⟨hread, hread'⟩

theorem recordRead (t : Store) (p : Principal) (a : Attribution) (query : List String)
    (rowCount : Nat) (fails : Bool) : OnlyReads t (recordRead t p a query rowCount fails) := by
  unfold Access.recordRead
  split
  · exact refl t
  · split
    · exact refl t
    · refine ⟨rfl, [readEvent t p a query rowCount], ?_, by simp [readEvent]⟩
      exact Table.rows_put_next t.auditEvents rfl

end OnlyReads

theorem onlyReads_step {cfg : Settings} {tenant : Uuid} (h : Handlers β ρ) (s : Tenants)
    {r : Request β} (hr : ¬ Authorized cfg tenant r) :
    OnlyReads (s tenant) (step cfg h s r tenant) := by
  rcases step_cases cfg h s r with hsame | ⟨_, p, a, _, n, _, _, _, _, hstep⟩ |
    ⟨_, p, _, hauthorized, hstep⟩
  · rw [hsame]
    exact OnlyReads.refl _
  · rw [hstep, Function.update_apply]
    split
    · rename_i htenant
      rw [htenant]
      exact OnlyReads.recordRead _ _ _ _ _ _
    · exact OnlyReads.refl _
  · have hne : tenant ≠ p.tenantId := fun htenant => hr (htenant ▸ hauthorized)
    rw [hstep, Function.update_of_ne hne]
    exact OnlyReads.refl _

/-- Whatever the requests, in whatever order: a tenant to which none of them is authorized to write
keeps its rows, and its audit log is only added reads. -/
theorem only_operators_write (cfg : Settings) (tenant : Uuid) (h : Handlers β ρ)
    (rs : List (Request β)) (s : Tenants) (hrs : ∀ r ∈ rs, ¬ Authorized cfg tenant r) :
    OnlyReads (s tenant) (exec (step cfg h) s rs tenant) := by
  induction rs generalizing s with
  | nil => exact OnlyReads.refl _
  | cons r rs ih =>
    rw [exec_cons]
    exact (onlyReads_step h s (hrs r List.mem_cons_self)).trans
      (ih (step cfg h s r) fun r' hr' => hrs r' (List.mem_cons_of_mem r hr'))

/-- The key `K2` is a reader's; the operator's request to acknowledge carries X-Tenant-ID. -/
def twoKeys : Settings where
  apiKeys := [⟨"alice", .operator, "K1", defaultTenantId, .human⟩,
    ⟨"bob", .reader, "K2", defaultTenantId, .machine⟩]
  apiKey := none

def acknowledge : Content :=
  .write (.patchInsight 1 ⟨"acknowledged", some "bob"⟩) 0 none

def firstPage {α : Type} : Page α := ⟨⟨100, by decide, by decide⟩, 0, id⟩

def everyInsight : Content := .insights ⟨none, none, none, none⟩ firstPage

def refused : List (Request Content) :=
  [⟨false, some "K2", .patch, ["insights", "1"], [], acknowledge, false⟩,
    ⟨false, some "K2", .get, ["insights"], ["severity"], everyInsight, false⟩,
    ⟨true, some "K1", .patch, ["insights", "1"], [], acknowledge, false⟩,
    ⟨false, none, .patch, ["insights", "1"], [], acknowledge, false⟩]

theorem refused_write_nothing :
    OnlyReads InsightExport.leaking (exec (step twoKeys (endpoints .double ⟨true⟩ refusing))
      (fun _ => InsightExport.leaking) refused defaultTenantId) :=
  only_operators_write twoKeys defaultTenantId _ refused (fun _ => InsightExport.leaking)
    (by decide +kernel)

/-! ## Reads -/

/-- What the log says of a read: who it was, of what, and how. -/
structure ReadRecord where
  actor : String
  targetType : Option String
  metadata : List (String × Json)
deriving DecidableEq

def record (e : AuditEventRow) : ReadRecord := ⟨e.actor, e.targetType, e.metadata⟩

/-- The record of a request that is served a read of the tenant: an endpoint without an attribution
leaves none, nor does a read whose record cannot be written. -/
def recordOf (cfg : Settings) (h : Handlers β ρ) (tenant : Uuid) (s : Tenants) (r : Request β) :
    Option ReadRecord :=
  match admission cfg r with
  | .error _ => none
  | .ok (route, p) =>
    if route.method = .get ∧ p.tenantId = tenant ∧ r.auditFails = false then
      match route.endpoint.attribution, h.read route.endpoint r.content (s tenant) with
      | some a, .ok (_, rowCount) =>
        some ⟨auditActor p, some a.targetType, a.metadata r.query rowCount⟩
      | _, _ => none
    else none

def recordsOf (cfg : Settings) (h : Handlers β ρ) (tenant : Uuid) :
    Tenants → List (Request β) → List ReadRecord
  | _, [] => []
  | s, r :: rs => (recordOf cfg h tenant s r).toList ++ recordsOf cfg h tenant (step cfg h s r) rs

theorem reads_recordRead {endpoint : Endpoint} {a : Attribution}
    (ha : endpoint.attribution = some a) (t : Store) (p : Principal) (query : List String)
    (rowCount : Nat) (fails : Bool) :
    (reads (recordRead t p a query rowCount fails)).map record = (reads t).map record ++
      if fails then [] else [⟨auditActor p, some a.targetType, a.metadata query rowCount⟩] := by
  unfold recordRead
  rw [validateMetadata_attribution ha]
  cases fails with
  | true => simp
  | false =>
    have hrows : (applyWrite t (.auditEvent (readEvent t p a query rowCount))).auditEvents.rows =
        t.auditEvents.rows ++ [readEvent t p a query rowCount] := Table.rows_put_next _ rfl
    simp only [reads, Bool.false_eq_true, if_false]
    rw [hrows, List.filter_append, List.map_append]
    simp [readEvent, record]

/-- One request adds its record, if it has one. -/
theorem reads_step (cfg : Settings) (h : Handlers β ρ) (tenant : Uuid) (s : Tenants)
    (r : Request β) :
    (reads (step cfg h s r tenant)).map record =
      (reads (s tenant)).map record ++ (recordOf cfg h tenant s r).toList := by
  unfold step respond recordOf
  cases hadmission : admission cfg r with
  | error e => simp
  | ok admitted =>
    obtain ⟨route, p⟩ := admitted
    obtain ⟨_, hroute, hcheck⟩ := admission_ok hadmission
    rw [optionalPrincipal_of_check hcheck]
    simp only
    by_cases hget : route.method = .get
    · rw [hget]
      by_cases htenant : p.tenantId = tenant
      · subst htenant
        cases hread : h.read route.endpoint r.content (s p.tenantId) with
        | error e => simp
        | ok out =>
          cases ha : route.endpoint.attribution with
          | none => simp
          | some a =>
            simp only [Option.elim, Function.update_self]
            rw [reads_recordRead ha]
            cases r.auditFails <;> simp
      · have hne : tenant ≠ p.tenantId := fun h => htenant h.symm
        cases h.read route.endpoint r.content (s p.tenantId) with
        | error e => simp [htenant]
        | ok out =>
          cases route.endpoint.attribution <;> simp [htenant, Function.update_of_ne hne]
    · have hwrite : reads (Function.update s p.tenantId
          (h.write route.endpoint p r.content (s p.tenantId)).1 tenant) = reads (s tenant) := by
        rw [Function.update_apply]
        split
        · rename_i htenant
          rw [htenant, h.silent]
        · rfl
      cases hm : route.method with
      | get => exact absurd hm hget
      | post => simp [hwrite]
      | patch => simp [hwrite]
      | delete => simp [hwrite]

/-- Each read that was served with its record written is on record, in order, and nothing else. -/
theorem reads_attributed (cfg : Settings) (h : Handlers β ρ) (tenant : Uuid)
    (rs : List (Request β)) (s : Tenants) :
    (reads (exec (step cfg h) s rs tenant)).map record =
      (reads (s tenant)).map record ++ recordsOf cfg h tenant s rs := by
  induction rs generalizing s with
  | nil => simp [recordsOf]
  | cons r rs ih => rw [exec_cons, ih, reads_step, recordsOf, List.append_assoc]

example : recordsOf twoKeys (endpoints .double ⟨true⟩ refusing) defaultTenantId
    (fun _ => InsightExport.leaking) refused = [⟨"machine:bob", some "insights",
      [("route", .str "/insights"), ("row_count", .int 1), ("filter_rule_name", .bool false),
        ("filter_severity", .bool true), ("filter_account_id", .bool false),
        ("filter_ack_status", .bool false)]⟩] := by
  decide +kernel

end Access

end Constat
