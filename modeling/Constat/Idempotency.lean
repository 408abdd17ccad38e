import Constat.ChargebackRun
import Constat.CollectJobs

/-!
# Idempotency

`idempotency.py` and the two endpoints that use it, `POST /collect/aws` and `POST /insights/run`. A
request that carries an Idempotency-Key looks its response up, and on a miss performs its operation
and stores the response: three steps, between which other requests take theirs. The process has one
cache, shared by all tenants.

* `IdempotencyCache` — responses by key with the time they were stored; `live` is what a lookup finds.
* `Api.step`         — one step of one request.
* `operate`          — what the two endpoints do on a miss.
-/

namespace Constat

/-! ## The cache -/

structure IdempotencyCache (ρ : Type) where
  ttl : Micros
  maxEntries : Nat
  store : Dict String (Micros × ρ)

namespace IdempotencyCache

variable {ρ : Type}

/-- `IdempotencyCache()`: five minutes, 1024 entries. -/
def fresh : IdempotencyCache ρ := ⟨5 * 60 * 1000000, 1024, .empty⟩

def expired (c : IdempotencyCache ρ) (now : Micros) (entry : Micros × ρ) : Bool :=
  c.ttl < now - entry.1

/-- The cached body, and the cache: an expired entry is dropped when it is found. -/
def get (c : IdempotencyCache ρ) (key : String) (now : Micros) : IdempotencyCache ρ × Option ρ :=
  match c.store.get? key with
  | none => (c, none)
  | some entry =>
    if c.expired now entry then ({ c with store := c.store.pop key }, none)
    else (c, some entry.2)

def dropExpired (c : IdempotencyCache ρ) (now : Micros) : Dict String (Micros × ρ) :=
  ((c.store.items.filter fun p => c.expired now p.2).map (·.1)).foldl Dict.pop c.store

/-- `while len(store) >= max_entries`: the entry inserted first goes first. -/
def evict (maxEntries : Nat) : List (String × Micros × ρ) → List (String × Micros × ρ)
  | [] => []
  | p :: items => if maxEntries ≤ items.length + 1 then evict maxEntries items else p :: items

theorem evict_sublist (maxEntries : Nat) (items : List (String × Micros × ρ)) :
    List.Sublist (evict maxEntries items) items := by
  induction items with
  | nil => exact List.Sublist.refl _
  | cons p items ih =>
    simp only [evict]
    split
    · exact ih.cons p
    · exact List.Sublist.refl _

def evictOldest (maxEntries : Nat) (d : Dict String (Micros × ρ)) : Dict String (Micros × ρ) where
  items := evict maxEntries d.items
  nodup := ((evict_sublist maxEntries d.items).map Prod.fst).nodup d.nodup

def put (c : IdempotencyCache ρ) (key : String) (body : ρ) (now : Micros) : IdempotencyCache ρ :=
  { c with store := (evictOldest c.maxEntries (c.dropExpired now)).set key (now, body) }

/-- The entry under a key, unless it has expired. -/
def live (c : IdempotencyCache ρ) (now : Micros) (key : String) : Option (Micros × ρ) :=
  (c.store.get? key).filter fun entry => !c.expired now entry

theorem live_eq_some {c : IdempotencyCache ρ} {now : Micros} {key : String}
    {entry : Micros × ρ} :
    c.live now key = some entry ↔ c.store.get? key = some entry ∧ c.expired now entry = false := by
  simp [live, Option.filter_eq_some_iff]

theorem get_body (c : IdempotencyCache ρ) (key : String) (now : Micros) :
    (c.get key now).2 = (c.live now key).map (·.2) := by
  simp only [get, live]
  cases c.store.get? key with
  | none => rfl
  | some entry => cases h : c.expired now entry <;> simp [h, Option.filter]

theorem get_ttl (c : IdempotencyCache ρ) (key : String) (now : Micros) :
    (c.get key now).1.ttl = c.ttl ∧ (c.get key now).1.maxEntries = c.maxEntries := by
  simp only [get]
  split
  · exact ⟨rfl, rfl⟩
  · split <;> exact ⟨rfl, rfl⟩

theorem get_store (c : IdempotencyCache ρ) (key : String) (now : Micros) (key' : String) :
    (c.get key now).1.store.get? key' =
      if key' = key then c.live now key else c.store.get? key' := by
  simp only [get, live]
  cases h : c.store.get? key with
  | none =>
    by_cases hk : key' = key
    · simp [hk, h]
    · simp [hk]
  | some entry =>
    cases he : c.expired now entry with
    | false =>
      by_cases hk : key' = key
      · simp [hk, h, he, Option.filter]
      · simp [hk, he]
    | true => simp [Dict.get?_pop, he, Option.filter]

theorem get?_foldl_pop {υ : Type} (ks : List String) (d : Dict String υ) (key : String) :
    (ks.foldl Dict.pop d).get? key = if key ∈ ks then none else d.get? key := by
  induction ks generalizing d with
  | nil => simp
  | cons k ks ih =>
    rw [List.foldl_cons, ih, Dict.get?_pop]
    by_cases hk : key = k <;> simp [hk]

theorem get?_dropExpired (c : IdempotencyCache ρ) (now : Micros) (key : String) :
    (c.dropExpired now).get? key = c.live now key := by
  rw [dropExpired, get?_foldl_pop, live]
  cases h : c.store.get? key with
  | none => simp
  | some entry =>
    have hmem : key ∈ (c.store.items.filter fun p => c.expired now p.2).map (·.1) ↔
        c.expired now entry = true := by
      simp only [List.mem_map, List.mem_filter]
      constructor
      · rintro ⟨p, ⟨hp, hexp⟩, rfl⟩
        rw [Dict.mem_items, h] at hp
        rw [Option.some.inj hp]
        exact hexp
      · intro hexp
        exact ⟨(key, entry), ⟨Dict.get?_eq_some.1 h, hexp⟩, rfl⟩
    cases he : c.expired now entry with
    | false =>
      rw [if_neg fun hk => by simp [hmem.1 hk] at he]
      simp [he, Option.filter]
    | true =>
      rw [if_pos (hmem.2 he)]
      simp [he, Option.filter]

/-- What is under a key after a `put` was put there, or was there and live. -/
theorem put_store_some {c : IdempotencyCache ρ} {key key' : String} {body : ρ} {now : Micros}
    {entry : Micros × ρ} (h : (c.put key body now).store.get? key' = some entry) :
    key' = key ∧ entry = (now, body) ∨ key' ≠ key ∧ c.live now key' = some entry := by
  simp only [put, Dict.get?_set] at h
  split at h
  · rename_i hk
    exact .inl ⟨hk, (Option.some.inj h).symm⟩
  · rename_i hk
    refine .inr ⟨hk, ?_⟩
    rw [← get?_dropExpired, Dict.get?_eq_some]
    exact (evict_sublist _ _).subset (Dict.get?_eq_some.1 h)

theorem put_store_self (c : IdempotencyCache ρ) (key : String) (body : ρ) (now : Micros) :
    (c.put key body now).store.get? key = some (now, body) := by
  simp [put, Dict.get?_set]

/-- The live entries of a cache. -/
def liveEntries (c : IdempotencyCache ρ) (now : Micros) : List (String × Micros × ρ) :=
  (c.dropExpired now).items

/-- With room for one more entry nothing is evicted. -/
theorem put_store {c : IdempotencyCache ρ} {key : String} {body : ρ} {now : Micros}
    (hroom : (c.liveEntries now).length < c.maxEntries) (key' : String) :
    (c.put key body now).store.get? key' =
      if key' = key then some (now, body) else c.live now key' := by
  have hkept : ∀ items : List (String × Micros × ρ), items.length < c.maxEntries →
      evict c.maxEntries items = items := by
    intro items hlen
    cases items with
    | nil => rfl
    | cons p items =>
      simp only [List.length_cons] at hlen
      simp [evict, Nat.not_le.2 hlen]
  have hevict : evictOldest c.maxEntries (c.dropExpired now) = c.dropExpired now :=
    Dict.ext (hkept _ hroom)
  rw [put, hevict, Dict.get?_set, get?_dropExpired]

/-- A cache whose live keys are live in another has no more of them. -/
theorem liveEntries_length_le {c c' : IdempotencyCache ρ} {now : Micros}
    (h : ∀ key, (c'.live now key).isSome → (c.live now key).isSome) :
    (c'.liveEntries now).length ≤ (c.liveEntries now).length := by
  have hkeys : ∀ c : IdempotencyCache ρ, ∀ key,
      key ∈ (c.dropExpired now).keys ↔ (c.live now key).isSome := by
    intro c key
    rw [← get?_dropExpired, Option.isSome_iff_ne_none, ne_eq, Dict.get?_eq_none, not_not]
  have hsub : (c'.dropExpired now).keys.Subperm (c.dropExpired now).keys :=
    List.subperm_of_subset (c'.dropExpired now).nodup
      fun key hkey => (hkeys c key).2 (h key ((hkeys c' key).1 hkey))
  simpa [Dict.keys, liveEntries] using hsub.length_le

end IdempotencyCache

/-! ## Requests -/

namespace Idempotency

inductive Endpoint where
  | collectAws
  | insightsRun
deriving DecidableEq

def Endpoint.scope : Endpoint → String
  | .collectAws => "collect_aws"
  | .insightsRun => "insights_run"

def makeCacheKey (scope key : String) : String := scope ++ ":" ++ key

/-- Two endpoints never share a cache key. -/
theorem makeCacheKey_inj {e e' : Endpoint} {key key' : String} :
    makeCacheKey e.scope key = makeCacheKey e'.scope key' ↔ e = e' ∧ key = key' := by
  constructor
  · intro h
    have hlist := congrArg String.toList h
    cases e <;> cases e' <;>
      simp [makeCacheKey, Endpoint.scope, String.toList_append, String.toList_inj] at hlist ⊢
    · exact hlist
    · exact hlist
  · rintro ⟨rfl, rfl⟩
    rfl

variable {τ ρ : Type} {β : Endpoint → Type}

/-- A request is told from the other requests of its tenant by a number. -/
structure Request (β : Endpoint → Type) where
  tenant : Uuid
  number : Nat
  endpoint : Endpoint
  idempotencyKey : Option String
  body : β endpoint

def Request.tag (r : Request β) : Uuid × Nat := (r.tenant, r.number)

/-- `if idempotency_key:`. -/
def Request.cacheKey (r : Request β) : Option String :=
  (Focus.truthy r.idempotencyKey).map (makeCacheKey r.endpoint.scope)

structure HttpException where
  statusCode : Nat
  detail : String
deriving DecidableEq

/-- Where a request is: past a lookup that missed, past its operation, or answered. -/
inductive Phase (ρ : Type) where
  | missed
  | executed (response : Except HttpException ρ)
  | answered

inductive Mark (β : Endpoint → Type) (ρ : Type) where
  | missed (r : Request β)
  | executed (r : Request β) (response : Except HttpException ρ)
  | stored (r : Request β)
  | answered (r : Request β) (response : Except HttpException ρ)

def Mark.request : Mark β ρ → Request β
  | .missed r | .executed r _ | .stored r | .answered r _ => r

structure Api (τ : Type) (β : Endpoint → Type) (ρ : Type) where
  cache : IdempotencyCache ρ
  tenants : Uuid → τ
  requests : Dict (Uuid × Nat) (Request β × Phase ρ)
  log : List (Mark β ρ)

def Api.start (cache : IdempotencyCache ρ) (tenants : Uuid → τ) : Api τ β ρ :=
  ⟨cache, tenants, .empty, []⟩

inductive Call (β : Endpoint → Type) where
  | lookup (r : Request β)
  | execute (tag : Uuid × Nat)
  | finish (tag : Uuid × Nat)

def Call.tenant : Call β → Uuid
  | .lookup r => r.tenant
  | .execute tag | .finish tag => tag.1

/-- A step of a request and the time on the clock. -/
structure Event (β : Endpoint → Type) where
  now : Micros
  call : Call β

/-- What an endpoint does to the store of a tenant. -/
abbrev Operation (τ : Type) (β : Endpoint → Type) (ρ : Type) :=
  (e : Endpoint) → β e → τ → τ × Except HttpException ρ

/-- `get_cached_or_none`: a response is read back as it was written. -/
def lookup (s : Api τ β ρ) (r : Request β) (now : Micros) : IdempotencyCache ρ × Option ρ :=
  match r.cacheKey with
  | none => (s.cache, none)
  | some key => s.cache.get key now

/-- `cache_response`, of a request that has a key and was not refused. -/
def cacheResponse (cache : IdempotencyCache ρ) (r : Request β)
    (response : Except HttpException ρ) (now : Micros) : IdempotencyCache ρ × List (Mark β ρ) :=
  match r.cacheKey, response with
  | some key, .ok body => (cache.put key body now, [.stored r])
  | _, _ => (cache, [])

def step (perform : Operation τ β ρ) (s : Api τ β ρ) (e : Event β) : Api τ β ρ :=
  match e.call with
  | .lookup r =>
    if (s.requests.get? r.tag).isSome then s
    else
      let (cache, cached) := lookup s r e.now
      match cached with
      | some body => { s with
          cache := cache
          requests := s.requests.set r.tag (r, .answered)
          log := s.log ++ [.answered r (.ok body)] }
      | none => { s with
          cache := cache
          requests := s.requests.set r.tag (r, .missed)
          log := s.log ++ [.missed r] }
  | .execute tag =>
    match s.requests.get? tag with
    | some (r, .missed) =>
      let (store, response) := perform r.endpoint r.body (s.tenants r.tenant)
      { s with
        tenants := Function.update s.tenants r.tenant store
        requests := s.requests.set tag (r, .executed response)
        log := s.log ++ [.executed r response] }
    | _ => s
  | .finish tag =>
    match s.requests.get? tag with
    | some (r, .executed response) =>
      let (cache, stored) := cacheResponse s.cache r response e.now
      { s with
        cache := cache
        requests := s.requests.set tag (r, .answered)
        log := s.log ++ stored ++ [.answered r response] }
    | _ => s

/-- What a step does: nothing, or one of the three steps of a request. -/
inductive Moves (perform : Operation τ β ρ) (s : Api τ β ρ) (e : Event β) : Api τ β ρ → Prop where
  | idle : Moves perform s e s
  | hit {r : Request β} {body : ρ} (hcall : e.call = .lookup r)
      (hnew : s.requests.get? r.tag = none) (hcached : (lookup s r e.now).2 = some body) :
      Moves perform s e { s with
        cache := (lookup s r e.now).1
        requests := s.requests.set r.tag (r, .answered)
        log := s.log ++ [.answered r (.ok body)] }
  | miss {r : Request β} (hcall : e.call = .lookup r) (hnew : s.requests.get? r.tag = none)
      (hcached : (lookup s r e.now).2 = none) :
      Moves perform s e { s with
        cache := (lookup s r e.now).1
        requests := s.requests.set r.tag (r, .missed)
        log := s.log ++ [.missed r] }
  | execute {tag : Uuid × Nat} {r : Request β} (hcall : e.call = .execute tag)
      (hphase : s.requests.get? tag = some (r, .missed)) :
      Moves perform s e { s with
        tenants := Function.update s.tenants r.tenant
          (perform r.endpoint r.body (s.tenants r.tenant)).1
        requests := s.requests.set tag
          (r, .executed (perform r.endpoint r.body (s.tenants r.tenant)).2)
        log := s.log ++ [.executed r (perform r.endpoint r.body (s.tenants r.tenant)).2] }
  | finish {tag : Uuid × Nat} {r : Request β} {response : Except HttpException ρ}
      (hcall : e.call = .finish tag) (hphase : s.requests.get? tag = some (r, .executed response)) :
      Moves perform s e { s with
        cache := (cacheResponse s.cache r response e.now).1
        requests := s.requests.set tag (r, .answered)
        log := s.log ++ (cacheResponse s.cache r response e.now).2 ++ [.answered r response] }

theorem step_moves (perform : Operation τ β ρ) (s : Api τ β ρ) (e : Event β) :
    Moves perform s e (step perform s e) := by
  simp only [step]
  split
  · rename_i r hcall
    split
    · exact .idle
    · rename_i hnew
      have hnone : s.requests.get? r.tag = none := by simpa using hnew
      cases hcached : (lookup s r e.now).2 with
      | none => exact .miss hcall hnone hcached
      | some body => exact .hit hcall hnone hcached
  · rename_i tag hcall
    split
    · rename_i r hphase
      exact .execute hcall hphase
    · exact .idle
  · rename_i tag hcall
    split
    · rename_i r response hphase
      exact .finish hcall hphase
    · exact .idle

/-! ### What the steps do to the cache -/

theorem lookup_body (s : Api τ β ρ) (r : Request β) (now : Micros) :
    (lookup s r now).2 = r.cacheKey.bind fun key => (s.cache.live now key).map (·.2) := by
  simp only [lookup]
  cases r.cacheKey with
  | none => rfl
  | some key => exact IdempotencyCache.get_body _ _ _

/-- A lookup drops at most an entry. -/
theorem lookup_store_some {s : Api τ β ρ} {r : Request β} {now : Micros} {key : String}
    {entry : Micros × ρ} (h : (lookup s r now).1.store.get? key = some entry) :
    s.cache.store.get? key = some entry := by
  simp only [lookup] at h
  cases hkey : r.cacheKey with
  | none => simpa [hkey] using h
  | some key' =>
    simp only [hkey, IdempotencyCache.get_store] at h
    split at h
    · rename_i he
      subst he
      exact (IdempotencyCache.live_eq_some.1 h).1
    · exact h

/-- An entry that is there after a response was handed over is that response, or was there. -/
theorem cacheResponse_store_some {cache : IdempotencyCache ρ} {r : Request β}
    {response : Except HttpException ρ} {now : Micros} {key : String} {entry : Micros × ρ}
    (h : (cacheResponse cache r response now).1.store.get? key = some entry) :
    (r.cacheKey = some key ∧ response = .ok entry.2) ∨ cache.store.get? key = some entry := by
  simp only [cacheResponse] at h
  split at h
  · rename_i key' body hkey
    rcases IdempotencyCache.put_store_some h with ⟨rfl, rfl⟩ | ⟨_, hlive⟩
    · exact .inl ⟨hkey, rfl⟩
    · exact .inr (IdempotencyCache.live_eq_some.1 hlive).1
  · exact .inr h

/-- The marks of a stored response say no more than that it was stored. -/
theorem cacheResponse_marks {cache : IdempotencyCache ρ} {r : Request β}
    {response : Except HttpException ρ} {now : Micros} {m : Mark β ρ}
    (h : m ∈ (cacheResponse cache r response now).2) : m = .stored r := by
  simp only [cacheResponse] at h
  split at h
  · exact List.mem_singleton.1 h
  · cases h

/-! ## The operations of the endpoints -/

/-- The body of a collect request, with what the endpoint finds: the persisted targets of the
tenant, and what the queue raises when the items are sent. -/
structure CollectRequest where
  actor : String
  targets : Option (List Collector.TargetAccount)
  force : Bool
  dryRun : Bool
  persisted : List Collector.TargetAccount
  sendError : Option PyError

structure RunRequest where
  rule : String
  env : Runner.RunEnv
  chargeback : Chargeback.Env

def Body : Endpoint → Type
  | .collectAws => CollectRequest
  | .insightsRun => RunRequest

inductive Response where
  | collectAccepted (jobId : Uuid) (itemsEnqueued : Nat)
  | runResult (result : Runner.RunResult) (periodLabel : String)
deriving DecidableEq

/-- `_validate_resource_types`: the unknown resource types of the first target that has some. -/
def unknownResourceTypes (targets : List Collector.TargetAccount) : Option (List String) :=
  (targets.map fun t => (((t.resourceTypes.getD []).filter fun rt =>
    rt ∉ Collector.jobRegistry.map (·.key)).dedup).insertionSort (· ≤ ·)).find? (· ≠ [])

/-- The last part of the text is no f-string: it keeps its braces. -/
def enqueueError (job : Uuid) (cause : PyError) : String :=
  "enqueue failed for collect job " ++ Uuid.text job ++ ": " ++ cause.describe ++
    ". The job row was kept and marked with enqueue_error — reconcile " ++
    "via GET /collect/aws/jobs/\x7bjob_id\x7d and re-POST."

def listText (xs : List String) : String := Py.str (.list (xs.map .str))

def triggerAwsCollect (body : CollectRequest) (store : Store) :
    Store × Except HttpException Response :=
  let given := body.targets.getD []
  let targets := if given.isEmpty then body.persisted else given
  if targets.isEmpty then
    (store, .error ⟨422, "no targets in the request body and no persisted collect_targets " ++
      "— import them first via POST /collect/targets/import"⟩)
  else
    match unknownResourceTypes targets with
    | some unknown =>
      (store, .error ⟨422, "unknown resource_type(s) " ++ listText unknown ++ " (known: " ++
        listText ((Collector.jobRegistry.map (·.key)).insertionSort (· ≤ ·)) ++ ")"⟩)
    | none =>
      let (s, job, items) :=
        CollectJobs.createAndEnqueueCollectJob (.begin store) body.actor targets body.force
          body.dryRun
      match body.sendError with
      | some cause => (s.close, .error ⟨503, enqueueError job.jobId cause⟩)
      | none => (s.close, .ok (.collectAccepted job.jobId items.length))

def runners (fp : Arith) : List String := (resourceRules fp).map (·.name) ++ ["chargeback"]

def runInsightsEndpoint (fp : Arith) (body : RunRequest) (store : Store) :
    Store × Except HttpException Response :=
  match (resourceRules fp).find? fun r => r.name = body.rule with
  | some rule =>
    let (s, result) := Runner.runResourceRule fp rule body.env (.begin store)
    (s.close, .ok (.runResult result ""))
  | none =>
    if body.rule = "chargeback" then
      let (s, result) := Chargeback.runChargeback fp body.chargeback (.begin store)
      (s.close, .ok (.runResult result.toRunResult result.periodLabel))
    else
      (store, .error ⟨400, "unknown rule: " ++ body.rule ++ " (V1 supports: " ++
        listText ((runners fp).insertionSort (· ≤ ·)) ++ ")"⟩)

def operate (fp : Arith) : Operation Store Body Response
  | .collectAws, body, store => triggerAwsCollect body store
  | .insightsRun, body, store => runInsightsEndpoint fp body store

end Idempotency

end Constat
