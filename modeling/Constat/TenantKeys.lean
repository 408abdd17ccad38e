import Constat.Idempotency
import Constat.Lib.Trace

/-!
# TenantKeys

Two runs of the API with the same requests of one tenant among different requests of the others. The
cache key is made of the endpoint and the Idempotency-Key, not of the tenant, so a tenant's lookup
finds what any tenant stored under its key.

* `owner`        — the tenant that last stored a response under a cache key.
* `ownEntry`     — what a lookup of the tenant finds, the tenant has stored.
* `CacheAgrees`  — the shared cache holds for the tenant what it would hold with its requests alone.
* `isolated`     — runs in which the tenant finds only its own responses look the same to it.
-/

namespace Constat

namespace Idempotency

open Trace

variable {τ ρ : Type} {β : Endpoint → Type} {perform : Operation τ β ρ} {tenant : Uuid}

def ofTenant (tenant : Uuid) (e : Event β) : Bool := e.call.tenant = tenant

/-- What the tenant's requests met: misses, operations with their outcome, and answers. -/
def history (tenant : Uuid) (s : Api τ β ρ) : List (Mark β ρ) :=
  s.log.filter fun m => m.request.tenant = tenant

def ownerStep (key : String) (o : Option Uuid) : Mark β ρ → Option Uuid
  | .stored r => if r.cacheKey = some key then some r.tenant else o
  | _ => o

/-- The tenant that last stored a response under the key. -/
def owner (log : List (Mark β ρ)) (key : String) : Option Uuid := log.foldl (ownerStep key) none

/-- A lookup of the tenant finds nothing, or what the tenant has stored. -/
def ownEntry (tenant : Uuid) (s : Api τ β ρ) (e : Event β) : Bool :=
  match e.call with
  | .lookup r =>
    r.tenant ≠ tenant || (s.requests.get? r.tag).isSome || match r.cacheKey with
      | none => true
      | some key => (s.cache.live e.now key).isNone || owner s.log key = some tenant
  | _ => true

/-- The cache has room for one more live key. -/
def roomy (s : Api τ β ρ) (e : Event β) : Bool :=
  (s.cache.liveEntries e.now).length < s.cache.maxEntries

/-- The clock does not run backwards. -/
def Clocked (es : List (Event β)) : Prop := es.Pairwise fun e e' => e.now ≤ e'.now

instance (es : List (Event β)) : Decidable (Clocked es) :=
  inferInstanceAs (Decidable (es.Pairwise fun e e' => e.now ≤ e'.now))

/-! ## The cache of two runs -/

/-- `c'` is `c` without some of the entries that have expired. -/
structure Swept (now : Micros) (c c' : IdempotencyCache ρ) : Prop where
  ttl : c'.ttl = c.ttl
  maxEntries : c'.maxEntries = c.maxEntries
  entries : ∀ key, c'.store.get? key = c.store.get? key ∨ c'.store.get? key = c.live now key

namespace Swept

variable {now : Micros} {c c' : IdempotencyCache ρ}

theorem refl (now : Micros) (c : IdempotencyCache ρ) : Swept now c c :=
  ⟨rfl, rfl, fun _ => .inl rfl⟩

theorem get (c : IdempotencyCache ρ) (key : String) (now : Micros) :
    Swept now c (c.get key now).1 := by
  refine ⟨(IdempotencyCache.get_ttl c key now).1, (IdempotencyCache.get_ttl c key now).2,
    fun k => ?_⟩
  rw [IdempotencyCache.get_store]
  split
  · rename_i hk
    rw [hk]
    exact .inr rfl
  · exact .inl rfl

theorem lookup (s : Api τ β ρ) (r : Request β) (now : Micros) :
    Swept now s.cache (lookup s r now).1 := by
  simp only [Idempotency.lookup]
  split
  · exact refl _ _
  · exact get _ _ _

theorem expired (h : Swept now c c') (entry : Micros × ρ) :
    c'.expired now entry = c.expired now entry := by
  rw [IdempotencyCache.expired, IdempotencyCache.expired, h.ttl]

theorem live (h : Swept now c c') (key : String) : c'.live now key = c.live now key := by
  refine Option.ext fun entry => ?_
  rw [IdempotencyCache.live_eq_some, IdempotencyCache.live_eq_some, h.expired]
  rcases h.entries key with hsame | hlive
  · rw [hsame]
  · rw [hlive, IdempotencyCache.live_eq_some, and_assoc, and_self]

theorem keeps (h : Swept now c c') {key : String} {entry : Micros × ρ}
    (hentry : c.store.get? key = some entry) (hfresh : c.expired now entry = false) :
    c'.store.get? key = some entry := by
  rcases h.entries key with hsame | hlive
  · rw [hsame, hentry]
  · rw [hlive, IdempotencyCache.live_eq_some]
    exact ⟨hentry, hfresh⟩

theorem some (h : Swept now c c') {key : String} {entry : Micros × ρ}
    (hentry : c'.store.get? key = some entry) : c.store.get? key = some entry := by
  rcases h.entries key with hsame | hlive
  · rw [← hsame, hentry]
  · rw [hlive] at hentry
    exact (IdempotencyCache.live_eq_some.1 hentry).1

end Swept

/-- `c` is the shared cache, `c'` the cache of the tenant's requests alone. -/
structure CacheAgrees (tenant : Uuid) (now : Micros) (own : String → Option Uuid)
    (c c' : IdempotencyCache ρ) : Prop where
  ttl : c.ttl = c'.ttl
  maxEntries : c.maxEntries = c'.maxEntries
  mine : ∀ key, own key = some tenant → c.live now key = c'.live now key
  hidden : ∀ key, own key ≠ some tenant → ∀ entry, c'.live now key = some entry →
    ∃ entry', c.store.get? key = some entry' ∧ entry.1 ≤ entry'.1
  past : ∀ key entry, c'.store.get? key = some entry → entry.1 ≤ now

namespace CacheAgrees

variable {now : Micros} {own : String → Option Uuid} {c c' c₁ c₁' : IdempotencyCache ρ}

/-- An entry that is at least as recent as a live one is live. -/
theorem fresh (h : CacheAgrees tenant now own c c') {entry entry' : Micros × ρ}
    (hle : entry.1 ≤ entry'.1) (hfresh : c'.expired now entry = false) :
    c.expired now entry' = false := by
  simp only [IdempotencyCache.expired, decide_eq_false_iff_not, not_lt] at hfresh ⊢
  rw [h.ttl]
  exact le_trans (sub_le_sub_left hle now) hfresh

theorem live_later {c : IdempotencyCache ρ} {now now' : Micros} (hle : now ≤ now') (key : String)
    (entry : Micros × ρ) (h : c.live now' key = some entry) : c.live now key = some entry := by
  obtain ⟨hentry, hfresh⟩ := IdempotencyCache.live_eq_some.1 h
  refine IdempotencyCache.live_eq_some.2 ⟨hentry, ?_⟩
  simp only [IdempotencyCache.expired, decide_eq_false_iff_not, not_lt] at hfresh ⊢
  exact le_trans (sub_le_sub_right hle entry.1) hfresh

theorem later {now' : Micros} (h : CacheAgrees tenant now own c c') (hle : now ≤ now') :
    CacheAgrees tenant now' own c c' := by
  refine ⟨h.ttl, h.maxEntries, fun key hown => Option.ext fun entry => ?_, fun key hown entry hlive =>
    h.hidden key hown entry (live_later hle key entry hlive), fun key entry hentry =>
    le_trans (h.past key entry hentry) hle⟩
  have hexpired : c.expired now' entry = c'.expired now' entry := by
    rw [IdempotencyCache.expired, IdempotencyCache.expired, h.ttl]
  constructor
  · intro hlive
    have hnow := live_later hle key entry hlive
    rw [h.mine key hown] at hnow
    refine IdempotencyCache.live_eq_some.2 ⟨(IdempotencyCache.live_eq_some.1 hnow).1, ?_⟩
    rw [← hexpired]
    exact (IdempotencyCache.live_eq_some.1 hlive).2
  · intro hlive
    have hnow := live_later hle key entry hlive
    rw [← h.mine key hown] at hnow
    refine IdempotencyCache.live_eq_some.2 ⟨(IdempotencyCache.live_eq_some.1 hnow).1, ?_⟩
    rw [hexpired]
    exact (IdempotencyCache.live_eq_some.1 hlive).2

theorem swept (h : CacheAgrees tenant now own c c') (hc : Swept now c c₁)
    (hc' : Swept now c' c₁') : CacheAgrees tenant now own c₁ c₁' := by
  refine ⟨hc.ttl.trans (h.ttl.trans hc'.ttl.symm),
    hc.maxEntries.trans (h.maxEntries.trans hc'.maxEntries.symm), fun key hown => ?_,
    fun key hown entry hlive => ?_, fun key entry hentry => h.past key entry (hc'.some hentry)⟩
  · rw [hc.live, hc'.live, h.mine key hown]
  · rw [hc'.live] at hlive
    obtain ⟨entry', hentry', hle⟩ := h.hidden key hown entry hlive
    exact ⟨entry', hc.keeps hentry' (h.fresh hle (IdempotencyCache.live_eq_some.1 hlive).2), hle⟩

/-- A key that is live for the tenant alone is live in the shared cache. -/
theorem live_isSome (h : CacheAgrees tenant now own c c') (key : String)
    (hlive : (c'.live now key).isSome) : (c.live now key).isSome := by
  by_cases hown : own key = some tenant
  · rw [h.mine key hown]
    exact hlive
  · obtain ⟨entry, hentry⟩ := Option.isSome_iff_exists.1 hlive
    obtain ⟨entry', hentry', hle⟩ := h.hidden key hown entry hentry
    have hfresh := h.fresh hle (IdempotencyCache.live_eq_some.1 hentry).2
    rw [IdempotencyCache.live_eq_some.2 ⟨hentry', hfresh⟩]
    rfl

/-- A lookup that finds in the shared cache only what is the tenant's finds the same in both. -/
theorem live_eq (h : CacheAgrees tenant now own c c') {key : String}
    (hown : (c.live now key).isNone || own key = some tenant) :
    c.live now key = c'.live now key := by
  rw [Bool.or_eq_true, Option.isNone_iff_eq_none, decide_eq_true_eq] at hown
  rcases hown with hnone | hown
  · rw [hnone]
    cases hlive : c'.live now key with
    | none => rfl
    | some entry =>
      have := h.live_isSome key (by rw [hlive]; rfl)
      rw [hnone] at this
      cases this
  · exact h.mine key hown

theorem live_put {c : IdempotencyCache ρ} {key : String} {body : ρ}
    (hroom : (c.liveEntries now).length < c.maxEntries) {k : String} (hk : k ≠ key) :
    (c.put key body now).live now k = c.live now k := by
  refine Option.ext fun entry => ?_
  rw [IdempotencyCache.live_eq_some, IdempotencyCache.put_store hroom, if_neg hk,
    IdempotencyCache.live_eq_some]
  exact ⟨fun ⟨hlive, _⟩ => hlive, fun hlive => ⟨hlive, hlive.2⟩⟩

/-- A live entry of another key is still shadowed after a response is stored. -/
theorem hidden_put (h : CacheAgrees tenant now own c c') {key k : String} {body : ρ}
    (hroom : (c.liveEntries now).length < c.maxEntries) (hk : k ≠ key)
    (hother : own k ≠ some tenant) {entry : Micros × ρ} (hentry : c'.live now k = some entry) :
    ∃ entry', (c.put key body now).store.get? k = some entry' ∧ entry.1 ≤ entry'.1 := by
  obtain ⟨entry', hentry', hle⟩ := h.hidden k hother entry hentry
  refine ⟨entry', ?_, hle⟩
  rw [IdempotencyCache.put_store hroom, if_neg hk]
  exact IdempotencyCache.live_eq_some.2
    ⟨hentry', h.fresh hle (IdempotencyCache.live_eq_some.1 hentry).2⟩

/-- Another tenant stores a response. -/
theorem put_other (h : CacheAgrees tenant now own c c') {own' : String → Option Uuid}
    {key : String} {body : ρ} (hroom : (c.liveEntries now).length < c.maxEntries)
    (hkey : own' key ≠ some tenant) (hown : ∀ k, k ≠ key → own' k = own k) :
    CacheAgrees tenant now own' (c.put key body now) c' := by
  refine ⟨h.ttl, h.maxEntries, fun k hmine => ?_, fun k hother entry hentry => ?_, h.past⟩
  · have hk : k ≠ key := by
      rintro rfl
      exact hkey hmine
    rw [live_put hroom hk, h.mine k (hown k hk ▸ hmine)]
  · by_cases hk : k = key
    · subst hk
      exact ⟨(now, body), IdempotencyCache.put_store_self _ _ _ _,
        h.past k entry (IdempotencyCache.live_eq_some.1 hentry).1⟩
    · exact h.hidden_put hroom hk (hown k hk ▸ hother) hentry

/-- The tenant stores a response. -/
theorem put_mine (h : CacheAgrees tenant now own c c') {own' : String → Option Uuid}
    {key : String} {body : ρ} (hroom : (c.liveEntries now).length < c.maxEntries)
    (hkey : own' key = some tenant) (hown : ∀ k, k ≠ key → own' k = own k) :
    CacheAgrees tenant now own' (c.put key body now) (c'.put key body now) := by
  have hroom' : (c'.liveEntries now).length < c'.maxEntries := by
    rw [← h.maxEntries]
    exact lt_of_le_of_lt (IdempotencyCache.liveEntries_length_le h.live_isSome) hroom
  refine ⟨h.ttl, h.maxEntries, fun k hmine => ?_, fun k hother entry hentry => ?_,
    fun k entry hentry => ?_⟩
  · by_cases hk : k = key
    · subst hk
      have hexpired : (c.put k body now).expired now (now, body) =
          (c'.put k body now).expired now (now, body) := by
        simp [IdempotencyCache.expired, IdempotencyCache.put, h.ttl]
      simp only [IdempotencyCache.live, IdempotencyCache.put_store_self, Option.filter, hexpired]
    · rw [live_put hroom hk, live_put hroom' hk, h.mine k (hown k hk ▸ hmine)]
  · have hk : k ≠ key := by
      rintro rfl
      exact hother hkey
    rw [live_put hroom' hk] at hentry
    exact h.hidden_put hroom hk (hown k hk ▸ hother) hentry
  · rcases IdempotencyCache.put_store_some hentry with ⟨_, rfl⟩ | ⟨_, hlive⟩
    · exact le_refl now
    · exact h.past k entry (IdempotencyCache.live_eq_some.1 hlive).1

end CacheAgrees

/-! ## The run and the tenant's part of it -/

/-- `s` is the state of a run at a time, `u` that of the tenant's requests alone. -/
structure Agrees (tenant : Uuid) (now : Micros) (s u : Api τ β ρ) : Prop where
  store : s.tenants tenant = u.tenants tenant
  requests : ∀ number, s.requests.get? (tenant, number) = u.requests.get? (tenant, number)
  tags : ∀ tag r phase, s.requests.get? tag = some (r, phase) → r.tag = tag
  history : history tenant s = history tenant u
  cache : CacheAgrees tenant now (owner s.log) s.cache u.cache

theorem owner_append (log marks : List (Mark β ρ)) (key : String) :
    owner (log ++ marks) key = marks.foldl (ownerStep key) (owner log key) := List.foldl_append

/-- Only a stored answer gives an entry an owner. -/
theorem owner_mark {log : List (Mark β ρ)} {m : Mark β ρ} (hm : ∀ r, m ≠ .stored r) :
    owner (log ++ [m]) = owner log := by
  funext key
  rw [owner_append]
  cases m with
  | stored r => exact absurd rfl (hm r)
  | missed r => rfl
  | executed r response => rfl
  | answered r response => rfl

theorem tags_set {s : Api τ β ρ} {r : Request β} {phase : Phase ρ}
    (h : ∀ tag r phase, s.requests.get? tag = some (r, phase) → r.tag = tag) :
    ∀ tag r' phase', (s.requests.set r.tag (r, phase)).get? tag = some (r', phase') →
      r'.tag = tag := by
  intro tag r' phase' hget
  rw [Dict.get?_set] at hget
  split at hget
  · rename_i htag
    cases hget
    exact htag.symm
  · exact h tag r' phase' hget

namespace Agrees

variable {now : Micros} {s u : Api τ β ρ}

theorem later {now' : Micros} (h : Agrees tenant now s u) (hle : now ≤ now') :
    Agrees tenant now' s u :=
  ⟨h.store, h.requests, h.tags, h.history, h.cache.later hle⟩

theorem requests_other (h : Agrees tenant now s u) {r : Request β} {phase : Phase ρ}
    (hr : r.tenant ≠ tenant) (number : Nat) :
    (s.requests.set r.tag (r, phase)).get? (tenant, number) =
      u.requests.get? (tenant, number) := by
  have hne : (tenant, number) ≠ r.tag := fun he => hr (congrArg Prod.fst he).symm
  rw [Dict.get?_set, if_neg hne, h.requests]

theorem history_other (h : Agrees tenant now s u) {marks : List (Mark β ρ)}
    (hmarks : ∀ m ∈ marks, m.request.tenant ≠ tenant) :
    (s.log ++ marks).filter (fun m => m.request.tenant = tenant) = Idempotency.history tenant u := by
  have hnone : marks.filter (fun m => m.request.tenant = tenant) = [] := by
    refine List.filter_eq_nil_iff.2 fun m hm => ?_
    simpa using hmarks m hm
  rw [List.filter_append, hnone, List.append_nil]
  exact h.history

/-- A step of another tenant. -/
theorem step_other {e : Event β} (h : Agrees tenant e.now s u) (he : e.call.tenant ≠ tenant)
    (hroom : roomy s e = true) : Agrees tenant e.now (step perform s e) u := by
  have hmove := step_moves perform s e
  generalize step perform s e = s' at hmove
  cases hmove with
  | idle => exact h
  | @hit r body hcall hnew hcached =>
    have hr : r.tenant ≠ tenant := by rwa [hcall] at he
    refine ⟨h.store, h.requests_other hr, tags_set h.tags,
      h.history_other (by simpa [Mark.request] using hr), ?_⟩
    rw [owner_mark (by simp)]
    exact h.cache.swept (Swept.lookup s r e.now) (Swept.refl _ _)
  | @miss r hcall hnew hcached =>
    have hr : r.tenant ≠ tenant := by rwa [hcall] at he
    refine ⟨h.store, h.requests_other hr, tags_set h.tags,
      h.history_other (by simpa [Mark.request] using hr), ?_⟩
    rw [owner_mark (by simp)]
    exact h.cache.swept (Swept.lookup s r e.now) (Swept.refl _ _)
  | @execute tag r hcall hphase =>
    have htag := h.tags tag r _ hphase
    subst htag
    have hr : r.tenant ≠ tenant := by rwa [hcall] at he
    refine ⟨?_, h.requests_other hr, tags_set h.tags,
      h.history_other (by simpa [Mark.request] using hr), ?_⟩
    · exact (Function.update_of_ne hr.symm _ _).trans h.store
    · rw [owner_mark (by simp)]
      exact h.cache
  | @finish tag r response hcall hphase =>
    have htag := h.tags tag r _ hphase
    subst htag
    have hr : r.tenant ≠ tenant := by rwa [hcall] at he
    refine ⟨h.store, h.requests_other hr, tags_set h.tags, ?_, ?_⟩
    · rw [Idempotency.history, List.append_assoc]
      refine h.history_other fun m hm => ?_
      rcases List.mem_append.1 hm with hm | hm
      · rw [cacheResponse_marks hm]; exact hr
      · rw [List.mem_singleton.1 hm]; exact hr
    · have hroom' : (s.cache.liveEntries e.now).length < s.cache.maxEntries := by
        simpa [roomy] using hroom
      simp only [cacheResponse]
      split
      · rename_i key body hkey
        refine h.cache.put_other hroom' ?_ fun k hk => ?_
        · simpa [owner_append, ownerStep, hkey] using hr
        · simp [owner_append, ownerStep, hkey, hk.symm]
      · rw [List.append_nil, owner_mark (by simp)]
        exact h.cache

theorem requests_mine (h : Agrees tenant now s u) {r : Request β} {phase : Phase ρ}
    (number : Nat) :
    (s.requests.set r.tag (r, phase)).get? (tenant, number) =
      (u.requests.set r.tag (r, phase)).get? (tenant, number) := by
  rw [Dict.get?_set, Dict.get?_set, h.requests]

theorem history_mine (h : Agrees tenant now s u) (marks : List (Mark β ρ)) :
    (s.log ++ marks).filter (fun m => m.request.tenant = tenant) =
      (u.log ++ marks).filter fun m => m.request.tenant = tenant := by
  rw [List.filter_append, List.filter_append]
  exact congrArg (· ++ _) h.history

theorem requests_eq (h : Agrees tenant now s u) {tag : Uuid × Nat} (htag : tag.1 = tenant) :
    s.requests.get? tag = u.requests.get? tag := by
  rw [show tag = (tenant, tag.2) from Prod.ext htag rfl]
  exact h.requests tag.2

theorem lookup_mine {e : Event β} {r : Request β} (h : Agrees tenant e.now s u)
    (hcall : e.call = .lookup r) (hr : r.tenant = tenant) (hown : ownEntry tenant s e = true) :
    Agrees tenant e.now (step perform s e) (step perform u e) := by
  have hrequest : s.requests.get? r.tag = u.requests.get? r.tag := h.requests_eq hr
  cases hphase : u.requests.get? r.tag with
  | some p =>
    simp only [step, hcall, hrequest, hphase, Option.isSome_some, if_true]
    exact h
  | none =>
    have hbody : (lookup s r e.now).2 = (lookup u r e.now).2 := by
      rw [lookup_body, lookup_body]
      cases hkey : r.cacheKey with
      | none => rfl
      | some key =>
        have hfound : (s.cache.live e.now key).isNone || owner s.log key = some tenant := by
          simpa [ownEntry, hcall, hr, hrequest, hphase, hkey] using hown
        rw [Option.bind_some, Option.bind_some, h.cache.live_eq hfound]
    have hcache : ∀ m : Mark β ρ, (∀ r', m ≠ .stored r') →
        CacheAgrees tenant e.now (owner (s.log ++ [m])) (lookup s r e.now).1
          (lookup u r e.now).1 := by
      intro m hm
      rw [owner_mark hm]
      exact h.cache.swept (Swept.lookup s r e.now) (Swept.lookup u r e.now)
    simp only [step, hcall, hrequest, hphase, hbody, Option.isSome_none, Bool.false_eq_true,
      if_false]
    cases (lookup u r e.now).2 with
    | none =>
      exact ⟨h.store, h.requests_mine, tags_set h.tags, h.history_mine _, hcache _ (by simp)⟩
    | some body =>
      exact ⟨h.store, h.requests_mine, tags_set h.tags, h.history_mine _, hcache _ (by simp)⟩

theorem execute_mine {e : Event β} {tag : Uuid × Nat} (h : Agrees tenant e.now s u)
    (hcall : e.call = .execute tag) (htag : tag.1 = tenant) :
    Agrees tenant e.now (step perform s e) (step perform u e) := by
  have hrequest := h.requests_eq htag
  cases hget : u.requests.get? tag with
  | none =>
    simp only [step, hcall, hrequest, hget]
    exact h
  | some p =>
    obtain ⟨r, phase⟩ := p
    have hr := h.tags tag r phase (hrequest.trans hget)
    subst hr
    cases phase with
    | missed =>
      have htenant : r.tenant = tenant := htag
      simp only [step, hcall, hrequest, hget]
      rw [show s.tenants r.tenant = u.tenants r.tenant by rw [htenant]; exact h.store]
      refine ⟨by simp [htenant], h.requests_mine, tags_set h.tags, h.history_mine _, ?_⟩
      rw [owner_mark (by simp)]
      exact h.cache
    | executed response =>
      simp only [step, hcall, hrequest, hget]
      exact h
    | answered =>
      simp only [step, hcall, hrequest, hget]
      exact h

theorem finish_mine {e : Event β} {tag : Uuid × Nat} (h : Agrees tenant e.now s u)
    (hcall : e.call = .finish tag) (htag : tag.1 = tenant) (hroom : roomy s e = true) :
    Agrees tenant e.now (step perform s e) (step perform u e) := by
  have hrequest := h.requests_eq htag
  cases hget : u.requests.get? tag with
  | none =>
    simp only [step, hcall, hrequest, hget]
    exact h
  | some p =>
    obtain ⟨r, phase⟩ := p
    have hr := h.tags tag r phase (hrequest.trans hget)
    subst hr
    cases phase with
    | missed =>
      simp only [step, hcall, hrequest, hget]
      exact h
    | executed response =>
      simp only [step, hcall, hrequest, hget]
      refine ⟨h.store, h.requests_mine, tags_set h.tags, ?_, ?_⟩
      · rw [Idempotency.history, Idempotency.history, List.append_assoc, List.append_assoc]
        simp only [cacheResponse]
        split <;> exact h.history_mine _
      · simp only [cacheResponse]
        split
        · rename_i key body hkey
          have hroom' : (s.cache.liveEntries e.now).length < s.cache.maxEntries := by
            simpa [roomy] using hroom
          refine h.cache.put_mine hroom' ?_ fun k hk => ?_
          · have htenant : r.tenant = tenant := htag
            simpa [owner_append, ownerStep, hkey] using htenant
          · simp [owner_append, ownerStep, hkey, hk.symm]
        · rw [List.append_nil, owner_mark (by simp)]
          exact h.cache
    | answered =>
      simp only [step, hcall, hrequest, hget]
      exact h

/-- A step of the tenant. -/
theorem step_mine {e : Event β} (h : Agrees tenant e.now s u) (he : e.call.tenant = tenant)
    (hroom : roomy s e = true) (hown : ownEntry tenant s e = true) :
    Agrees tenant e.now (step perform s e) (step perform u e) := by
  cases hcall : e.call with
  | lookup r => exact h.lookup_mine hcall (by rwa [hcall] at he) hown
  | execute tag => exact h.execute_mine hcall (by rwa [hcall] at he)
  | finish tag => exact h.finish_mine hcall (by rwa [hcall] at he) hroom

end Agrees

/-- A run and the tenant's part of it look the same to the tenant. -/
theorem exec_agrees {es : List (Event β)} : ∀ {now : Micros} {s u : Api τ β ρ},
    Agrees tenant now s u → (∀ e ∈ es, now ≤ e.now) → Clocked es →
    Along (step perform) (fun s e => roomy s e = true) s es →
    Along (step perform) (fun s e => ownEntry tenant s e = true) s es →
    ∃ now', Agrees tenant now' (exec (step perform) s es)
      (exec (step perform) u (es.filter (ofTenant tenant))) := by
  induction es with
  | nil => intro now s u h _ _ _ _; exact ⟨now, h⟩
  | cons e es ih =>
    intro now s u h hle hclock hroom hown
    have hnow := h.later (hle e List.mem_cons_self)
    obtain ⟨hnext, hclock⟩ := List.pairwise_cons.1 hclock
    rw [exec_cons, List.filter_cons]
    by_cases he : e.call.tenant = tenant
    · rw [if_pos (by simpa [ofTenant] using he), exec_cons]
      exact ih (hnow.step_mine he hroom.1 hown.1) hnext hclock hroom.2 hown.2
    · rw [if_neg (by simpa [ofTenant] using he)]
      exact ih (hnow.step_other he hroom.1) hnext hclock hroom.2 hown.2

theorem agrees_start (cache : IdempotencyCache ρ) (hempty : cache.store = .empty)
    {tenants tenants' : Uuid → τ} (h : tenants tenant = tenants' tenant) (now : Micros) :
    Agrees tenant now (.start cache tenants : Api τ β ρ) (.start cache tenants') := by
  refine ⟨h, fun _ => rfl, by simp [Api.start], rfl, rfl, rfl, fun _ _ => rfl, ?_, ?_⟩
  · intro key _ entry hlive
    have hentry := (IdempotencyCache.live_eq_some.1 hlive).1
    simp [Api.start, hempty] at hentry
  · intro key entry hentry
    simp [Api.start, hempty] at hentry

/-- Two runs with the same requests of the tenant, in which its lookups find what it stored itself
or nothing, perform the same operations for it and give it the same answers. -/
theorem isolated (perform : Operation τ β ρ) (tenant : Uuid) (ttl : Micros) (maxEntries : Nat)
    {tenants tenants' : Uuid → τ} {es es' : List (Event β)}
    (hstore : tenants tenant = tenants' tenant)
    (hsame : es.filter (ofTenant tenant) = es'.filter (ofTenant tenant))
    (hclock : Clocked es) (hclock' : Clocked es')
    (hroom : Along (step perform) (fun s e => roomy s e = true)
      (.start ⟨ttl, maxEntries, .empty⟩ tenants) es)
    (hroom' : Along (step perform) (fun s e => roomy s e = true)
      (.start ⟨ttl, maxEntries, .empty⟩ tenants') es')
    (hown : Along (step perform) (fun s e => ownEntry tenant s e = true)
      (.start ⟨ttl, maxEntries, .empty⟩ tenants) es)
    (hown' : Along (step perform) (fun s e => ownEntry tenant s e = true)
      (.start ⟨ttl, maxEntries, .empty⟩ tenants') es') :
    let s := exec (step perform) (.start ⟨ttl, maxEntries, .empty⟩ tenants) es
    let s' := exec (step perform) (.start ⟨ttl, maxEntries, .empty⟩ tenants') es'
    history tenant s = history tenant s' ∧ s.tenants tenant = s'.tenants tenant := by
  have hfirst : ∀ {es : List (Event β)}, Clocked es → ∃ now : Micros, ∀ e ∈ es, now ≤ e.now := by
    intro es hclock
    cases es with
    | nil => exact ⟨0, fun e he => by cases he⟩
    | cons e es =>
      refine ⟨e.now, fun e' he' => ?_⟩
      rcases List.mem_cons.1 he' with rfl | he'
      · exact le_refl _
      · exact (List.pairwise_cons.1 hclock).1 e' he'
  obtain ⟨now, hnow⟩ := hfirst hclock
  obtain ⟨now', hnow'⟩ := hfirst hclock'
  obtain ⟨_, h⟩ := exec_agrees (agrees_start ⟨ttl, maxEntries, .empty⟩ rfl (rfl : tenants tenant = _)
    now) hnow hclock hroom hown
  obtain ⟨_, h'⟩ := exec_agrees (agrees_start ⟨ttl, maxEntries, .empty⟩ rfl hstore.symm now')
    hnow' hclock' hroom' hown'
  rw [← hsame] at h'
  exact ⟨h.history.trans h'.history.symm, h.store.trans h'.store.symm⟩

/-- A collection of an account of the tenant, with a key both tenants use. -/
def shared (tenant : Uuid) (account : String) : Request Body where
  tenant := tenant
  number := 1
  endpoint := .collectAws
  idempotencyKey := some "daily"
  body := {
    actor := "ops"
    targets := some [⟨account, none, none, none, some ["eu-west-3"], none⟩]
    force := false
    dryRun := false
    persisted := []
    sendError := none }

/-- The steps of such a request, one after the other. -/
def steps (now : Micros) (r : Request Body) : List (Event Body) :=
  [⟨now, .lookup r⟩, ⟨now + 1, .execute r.tag⟩, ⟨now + 2, .finish r.tag⟩]

/-- The other tenant comes later: nothing it does is seen. -/
theorem isolated_from_later :
    let s := exec (step (operate .exact)) (.start ⟨5 * 60 * 1000000, 1024, .empty⟩ fun _ =>
      Store.empty) (steps 0 (shared 1 "111111111111") ++ steps 5 (shared 2 "222222222222"))
    let s' := exec (step (operate .exact)) (.start ⟨5 * 60 * 1000000, 1024, .empty⟩ fun _ =>
      Store.empty) (steps 0 (shared 1 "111111111111"))
    history 1 s = history 1 s' ∧ s.tenants 1 = s'.tenants 1 :=
  isolated (operate .exact) 1 (5 * 60 * 1000000) 1024 rfl (by rfl) (by decide +kernel)
    (by decide +kernel) (by decide +kernel) (by decide +kernel) (by decide +kernel)
    (by decide +kernel)

/-- Tenant 1 posts its collection after tenant 2 has posted one under the same key: it is handed
the job of tenant 2, and its own is never posted. Alone, it gets a job. -/
theorem replayed_across_tenants :
    let es := steps 0 (shared 2 "222222222222") ++ steps 5 (shared 1 "111111111111")
    let es' := steps 5 (shared 1 "111111111111")
    let start : Api Store Body Response := .start .fresh fun _ => Store.empty
    es.filter (ofTenant 1) = es'.filter (ofTenant 1) ∧ Clocked es ∧ Clocked es' ∧
      Along (step (operate .exact)) (fun s e => roomy s e = true) start es ∧
      Along (step (operate .exact)) (fun s e => roomy s e = true) start es' ∧
      history 1 (exec (step (operate .exact)) start es) ≠
        history 1 (exec (step (operate .exact)) start es') := by
  refine ⟨by rfl, by decide +kernel, by decide +kernel, by decide +kernel, by decide +kernel,
    fun h => ?_⟩
  have hlength := congrArg List.length h
  exact absurd hlength (by decide +kernel)

end Idempotency

end Constat
