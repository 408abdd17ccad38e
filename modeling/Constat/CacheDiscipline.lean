import Constat.Idempotency
import Constat.Lib.Trace

/-!
# CacheDiscipline

The cache of the responses over any sequence of `get`s and `put`s with a clock that never goes back.
`put` makes room before it looks whether its key is there, and a key that is written again keeps its
place in the order of insertion.

* `keysAfter` — the keys after a `put`, oldest first.
* `Tracked` — a cache, and beside it what was last put under each key that has not been evicted.
* `Law`     — the size stays within the limit, a key that is rewritten evicts no other, what was
              just written is not the oldest of several, and a `get` within the TTL finds the last
              `put`.
* `law_iff` — a sequence keeps the law exactly when each `put` of a live key finds it alone, or
              finds it the oldest just when the cache is full.
-/

namespace Constat

namespace IdempotencyCache

/-! ## Keys in the order of insertion -/

section

variable {α : Type}

/-- A key that is put last is first only when it is alone. -/
theorem length_of_head_append {k : α} {ks : List α} (hk : k ∉ ks)
    (hhead : (ks ++ [k]).head? = some k) : (ks ++ [k]).length = 1 := by
  cases ks with
  | nil => rfl
  | cons a ks => exact absurd (Option.some.inj hhead ▸ List.mem_cons_self) hk

variable [DecidableEq α]

/-- The keys of at most `cap` entries after `k` was put: the oldest goes when there are `cap`. -/
def keysAfter (cap : Nat) (k : α) (ks : List α) : List α :=
  let rest := if ks.length = cap then ks.tail else ks
  if k ∈ rest then rest else rest ++ [k]

theorem keysAfter_length {cap : Nat} {k : α} {ks : List α} (hpos : 0 < cap)
    (hlen : ks.length ≤ cap) : (keysAfter cap k ks).length ≤ cap := by
  have hinsert : ∀ rest : List α, rest.length < cap →
      (if k ∈ rest then rest else rest ++ [k]).length ≤ cap := by
    intro rest hrest
    split
    · exact Nat.le_of_lt hrest
    · rw [List.length_append, List.length_singleton]
      exact hrest
  refine hinsert _ ?_
  split
  · rw [List.length_tail]; omega
  · omega

/-- No other key is lost when `k` was there, and `k` is not first before others: when that is so. -/
theorem keysAfter_iff {cap : Nat} {k : α} {ks : List α} (hnodup : ks.Nodup) (hlen : ks.length ≤ cap)
    (hpos : 0 < cap) :
    ((k ∈ ks → ∀ k' ∈ ks, k' ≠ k → k' ∈ keysAfter cap k ks) ∧
      ((keysAfter cap k ks).head? = some k → (keysAfter cap k ks).length = 1)) ↔
    (k ∈ ks → ks.length = 1 ∨ (ks.head? = some k ↔ ks.length = cap)) := by
  cases ks with
  | nil =>
    have hne : ¬ 0 = cap := fun h => Nat.lt_irrefl _ (h ▸ hpos)
    simp [keysAfter, hne]
  | cons a t =>
    obtain ⟨ha, _⟩ := List.nodup_cons.1 hnodup
    by_cases hfull : (a :: t).length = cap
    · have hafter : keysAfter cap k (a :: t) = if k ∈ t then t else t ++ [k] := by
        simp only [keysAfter, if_pos hfull, List.tail_cons]
      rw [hafter]
      by_cases ht : k ∈ t
      · -- the oldest key is another one, and it goes
        have hka : a ≠ k := fun h => ha (h ▸ ht)
        have hlen₂ : (a :: t).length ≠ 1 := by
          rw [List.length_cons]
          have := List.length_pos_of_mem ht
          omega
        rw [if_pos ht]
        constructor
        · rintro ⟨hspares, _⟩
          exact absurd (hspares (List.mem_cons_of_mem a ht) a List.mem_cons_self hka) ha
        · intro h
          rcases h (List.mem_cons_of_mem a ht) with h | h
          · exact absurd h hlen₂
          · exact absurd (Option.some.inj (h.2 hfull)) hka
      · rw [if_neg ht]
        refine ⟨fun _ hk => .inr ?_,
          fun _ => ⟨fun hk k' hk' hne => ?_, length_of_head_append ht⟩⟩
        · rcases List.mem_cons.1 hk with rfl | hk
          · exact ⟨fun _ => hfull, fun _ => rfl⟩
          · exact absurd hk ht
        · rcases List.mem_cons.1 hk' with rfl | hk'
          · rcases List.mem_cons.1 hk with rfl | hk
            · exact absurd rfl hne
            · exact absurd hk ht
          · exact List.mem_append_left _ hk'
    · have hafter : keysAfter cap k (a :: t) = if k ∈ a :: t then a :: t else a :: t ++ [k] := by
        simp only [keysAfter, if_neg hfull]
      rw [hafter]
      by_cases hk : k ∈ a :: t
      · rw [if_pos hk]
        simp only [hk, forall_const, hfull, iff_false]
        constructor
        · rintro ⟨_, h⟩
          by_cases hhead : (a :: t).head? = some k
          · exact .inl (h hhead)
          · exact .inr hhead
        · intro h
          refine ⟨fun k' hk' _ => hk', fun hhead => ?_⟩
          exact h.resolve_right fun hne => hne hhead
      · rw [if_neg hk]
        exact ⟨fun _ h => absurd h hk, fun _ => ⟨fun h => absurd h hk, length_of_head_append hk⟩⟩

end

variable {ρ : Type}

theorem evict_eq {cap : Nat} {items : List (String × Micros × ρ)}
    (hlen : items.length ≤ cap) :
    evict cap items = if items.length = cap then items.tail else items := by
  cases items with
  | nil => simp [evict]
  | cons p items =>
    rw [List.length_cons] at hlen
    have hrest : evict cap items = items := by
      cases items with
      | nil => rfl
      | cons q items =>
        rw [List.length_cons] at hlen
        rw [evict, if_neg (by omega)]
    simp only [evict, List.length_cons, List.tail_cons, hrest]
    by_cases hfull : items.length + 1 = cap
    · rw [if_pos hfull, if_pos (Nat.le_of_eq hfull.symm)]
    · rw [if_neg hfull, if_neg (by omega)]

theorem mem_keys_dropExpired {c : IdempotencyCache ρ} {now : Micros} {key : String} :
    key ∈ (c.dropExpired now).keys ↔ (c.live now key).isSome := by
  rw [← get?_dropExpired, Option.isSome_iff_ne_none, ne_eq, Dict.get?_eq_none, not_not]

theorem foldl_pop_sublist {υ : Type} (ks : List String) (d : Dict String υ) :
    (ks.foldl Dict.pop d).items.Sublist d.items := by
  induction ks generalizing d with
  | nil => exact List.Sublist.refl _
  | cons k ks ih =>
    rw [List.foldl_cons]
    exact (ih _).trans List.filter_sublist

theorem dropExpired_length_le (c : IdempotencyCache ρ) (now : Micros) :
    (c.dropExpired now).items.length ≤ c.store.items.length :=
  (foldl_pop_sublist _ c.store).length_le

theorem keys_put {c : IdempotencyCache ρ}
    (hsize : c.store.items.length ≤ c.maxEntries) (key : String) (body : ρ) (now : Micros) :
    (c.put key body now).store.keys = keysAfter c.maxEntries key (c.dropExpired now).keys := by
  have hlen := (dropExpired_length_le c now).trans hsize
  have hkeys : (evictOldest c.maxEntries (c.dropExpired now)).keys =
      if (c.dropExpired now).keys.length = c.maxEntries then (c.dropExpired now).keys.tail
      else (c.dropExpired now).keys := by
    simp only [Dict.keys, evictOldest, evict_eq hlen, List.length_map]
    split
    · rw [List.map_tail]
    · rfl
  rw [keysAfter, ← hkeys]
  exact Table.map_key_putRow Prod.fst (key, now, body) _

/-! ## Sequences of calls -/

/-- `put` of a cache that may hold no entry: the loop empties it and `next` has nothing to give. -/
def tryPut (c : IdempotencyCache ρ) (key : String) (body : ρ) (now : Micros) :
    IdempotencyCache ρ × Option PyError :=
  if c.maxEntries = 0 then ({ c with store := .empty }, some ⟨"StopIteration", ""⟩)
  else (c.put key body now, none)

inductive Call (ρ : Type) where
  | get (key : String)
  | put (key : String) (body : ρ)

/-- A call, and the time that has passed since the one before. -/
structure Event (ρ : Type) where
  elapsed : Nat
  call : Call ρ

/-- `last` is what was put last under a key, unless the key has been evicted since. -/
structure Tracked (ρ : Type) where
  cache : IdempotencyCache ρ
  clock : Micros
  last : String → Option (Micros × ρ)

def Tracked.start (ttl : Micros) (maxEntries : Nat) (clock : Micros) : Tracked ρ :=
  ⟨⟨ttl, maxEntries, .empty⟩, clock, fun _ => none⟩

def Tracked.now (s : Tracked ρ) (e : Event ρ) : Micros := s.clock + e.elapsed

/-- The loop of a `put` pops the key. -/
def evicts (c : IdempotencyCache ρ) (now : Micros) (key : String) : Bool :=
  (c.live now key).isSome &&
    ((evictOldest c.maxEntries (c.dropExpired now)).get? key).isNone

def step (s : Tracked ρ) (e : Event ρ) : Tracked ρ :=
  let now := s.now e
  match e.call with
  | .get key => { s with cache := (s.cache.get key now).1, clock := now }
  | .put key body =>
    let (cache, raised) := s.cache.tryPut key body now
    { cache := cache
      clock := now
      last := fun k =>
        if k = key ∧ raised = none then some (now, body)
        else if s.cache.evicts now k then none
        else s.last k }

/-- `next(iter(store))`: the key that the next eviction takes. -/
def oldest (c : IdempotencyCache ρ) : Option String := c.store.keys.head?

/-- What one call is to do. -/
structure Law (s : Tracked ρ) (e : Event ρ) : Prop where
  size : (step s e).cache.store.items.length ≤ s.cache.maxEntries
  spares : ∀ key body, e.call = .put key body → (s.cache.live (s.now e) key).isSome →
    ∀ k ≠ key, (s.cache.live (s.now e) k).isSome → k ∈ (step s e).cache.store.keys
  notNext : ∀ key body, e.call = .put key body → (step s e).cache.oldest = some key →
    (step s e).cache.store.items.length = 1
  returns : ∀ key, e.call = .get key → ∀ time body, s.last key = some (time, body) →
    s.now e - time ≤ s.cache.ttl → (s.cache.get key (s.now e)).2 = some body

/-- A `put` of a live key finds it alone, or finds it the oldest just when the cache is full. -/
def Fits (s : Tracked ρ) (e : Event ρ) : Prop :=
  ∀ key body, e.call = .put key body → (s.cache.live (s.now e) key).isSome →
    (s.cache.liveEntries (s.now e)).length = 1 ∨
      ((s.cache.liveEntries (s.now e)).head?.map Prod.fst = some key ↔
        (s.cache.liveEntries (s.now e)).length = s.cache.maxEntries)

/-! ### What every call keeps -/

structure Inv (s : Tracked ρ) : Prop where
  size : s.cache.store.items.length ≤ s.cache.maxEntries
  kept : ∀ key time body, s.last key = some (time, body) → s.clock - time ≤ s.cache.ttl →
    s.cache.store.get? key = some (time, body)

theorem inv_start (ttl : Micros) (maxEntries : Nat) (clock : Micros) :
    Inv (.start ttl maxEntries clock : Tracked ρ) :=
  ⟨Nat.zero_le _, fun _ _ _ h => by cases h⟩

theorem live_of_last {s : Tracked ρ} (h : Inv s) (e : Event ρ) {key : String} {time : Micros}
    {body : ρ} (hlast : s.last key = some (time, body)) (hage : s.now e - time ≤ s.cache.ttl) :
    s.cache.live (s.now e) key = some (time, body) := by
  have hclock : s.clock ≤ s.now e := Int.le_add_of_nonneg_right (Int.natCast_nonneg _)
  refine live_eq_some.2 ⟨h.kept key time body hlast ?_, decide_eq_false (Int.not_lt.2 hage)⟩
  exact (Int.sub_le_sub_right hclock time).trans hage

theorem size_get (c : IdempotencyCache ρ) (key : String) (now : Micros) :
    (c.get key now).1.store.items.length ≤ c.store.items.length := by
  simp only [get]
  split
  · exact Nat.le_refl _
  · split
    · exact List.length_filter_le _ _
    · exact Nat.le_refl _

theorem size_put {c : IdempotencyCache ρ} (hpos : 0 < c.maxEntries)
    (hsize : c.store.items.length ≤ c.maxEntries) (key : String) (body : ρ) (now : Micros) :
    (c.put key body now).store.items.length ≤ c.maxEntries := by
  have hkeys := keys_put hsize key body now
  have hlen : (c.dropExpired now).keys.length ≤ c.maxEntries := by
    rw [Dict.keys, List.length_map]
    exact (dropExpired_length_le c now).trans hsize
  have hafter := keysAfter_length (k := key) hpos hlen
  rwa [← hkeys, Dict.keys, List.length_map] at hafter

theorem step_get {s : Tracked ρ} {e : Event ρ} {key : String} (he : e.call = .get key) :
    step s e = { s with cache := (s.cache.get key (s.now e)).1, clock := s.now e } := by
  simp only [step, he]

theorem step_put {s : Tracked ρ} {e : Event ρ} {key : String} {body : ρ}
    (he : e.call = .put key body) (hpos : 0 < s.cache.maxEntries) :
    step s e = {
      cache := s.cache.put key body (s.now e)
      clock := s.now e
      last := fun k =>
        if k = key then some (s.now e, body)
        else if s.cache.evicts (s.now e) k then none else s.last k } := by
  simp only [step, he, tryPut, if_neg (Nat.ne_of_gt hpos), and_true]

/-- A cache that may hold nothing stays empty. -/
theorem step_put_zero {s : Tracked ρ} (h : Inv s) {e : Event ρ} {key : String} {body : ρ}
    (he : e.call = .put key body) (hzero : s.cache.maxEntries = 0) :
    step s e = { s with cache := { s.cache with store := .empty }, clock := s.now e } ∧
      ∀ k, s.cache.live (s.now e) k = none := by
  have hnone : ∀ k, s.cache.live (s.now e) k = none := by
    intro k
    have hsize := h.size
    rw [hzero] at hsize
    have hlen := (dropExpired_length_le s.cache (s.now e)).trans hsize
    rw [← Option.not_isSome_iff_eq_none, ← mem_keys_dropExpired, Dict.keys,
      List.length_eq_zero_iff.1 (Nat.le_zero.1 hlen)]
    exact List.not_mem_nil
  refine ⟨?_, hnone⟩
  simp [step, he, tryPut, hzero, evicts, hnone]

theorem get?_put_of_not_evicted {c : IdempotencyCache ρ} {now : Micros} {key k : String}
    {body : ρ} {entry : Micros × ρ} (hk : k ≠ key) (hlive : c.live now k = some entry)
    (hevicts : c.evicts now k = false) :
    (c.put key body now).store.get? k = some entry := by
  have hsome : ((evictOldest c.maxEntries (c.dropExpired now)).get? k).isSome := by
    rw [evicts, hlive] at hevicts
    simpa using hevicts
  obtain ⟨found, hfound⟩ := Option.isSome_iff_exists.1 hsome
  have hstore : (c.put key body now).store.get? k = some found := by
    rw [put, Dict.get?_set, if_neg hk, hfound]
  rcases put_store_some hstore with ⟨heq, _⟩ | ⟨_, hlive'⟩
  · exact absurd heq hk
  · rw [hstore, ← hlive', hlive]

theorem inv_step {s : Tracked ρ} {e : Event ρ} (h : Inv s) : Inv (step s e) := by
  cases he : e.call with
  | get key =>
    rw [step_get he]
    refine ⟨?_, fun k time body hlast hage => ?_⟩
    · simp only [(get_ttl s.cache key (s.now e)).2]
      exact (size_get _ _ _).trans h.size
    · simp only [(get_ttl s.cache key (s.now e)).1] at hage ⊢
      have hlive := live_of_last h e hlast hage
      rw [get_store]
      split
      · rename_i heq
        rw [← heq]
        exact hlive
      · exact (live_eq_some.1 hlive).1
  | put key body =>
    rcases Nat.eq_zero_or_pos s.cache.maxEntries with hzero | hpos
    · obtain ⟨hstep, hnone⟩ := step_put_zero h he hzero
      rw [hstep]
      refine ⟨Nat.zero_le _, fun k time body hlast hage => ?_⟩
      have hlive := live_of_last h e hlast hage
      rw [hnone] at hlive
      cases hlive
    · rw [step_put he hpos]
      refine ⟨size_put hpos h.size key body _, fun k time body' hlast hage => ?_⟩
      simp only at hlast hage ⊢
      split at hlast
      · rename_i heq
        cases hlast
        rw [heq]
        exact put_store_self _ _ _ _
      · rename_i hk
        split at hlast
        · cases hlast
        · rename_i hevicts
          exact get?_put_of_not_evicted hk (live_of_last h e hlast hage)
            (Bool.eq_false_iff.2 hevicts)

/-! ### The law -/

theorem law_get {s : Tracked ρ} (h : Inv s) {e : Event ρ} {key : String} (he : e.call = .get key) :
    Law s e := by
  refine ⟨?_, fun k body hput => ?_, fun k body hput => ?_, fun k hget time body hlast hage => ?_⟩
  · rw [step_get he]
    exact (size_get _ _ _).trans h.size
  · rw [he] at hput
    cases hput
  · rw [he] at hput
    cases hput
  · rw [he] at hget
    cases hget
    rw [get_body, live_of_last h e hlast hage]
    rfl

theorem law_put_iff {s : Tracked ρ} (h : Inv s) (hpos : 0 < s.cache.maxEntries) {e : Event ρ}
    {key : String} {body : ρ} (he : e.call = .put key body) : Law s e ↔ Fits s e := by
  have hkeys := keys_put h.size key body (s.now e)
  have hlen : (s.cache.dropExpired (s.now e)).keys.length ≤ s.cache.maxEntries := by
    rw [Dict.keys, List.length_map]
    exact (dropExpired_length_le s.cache _).trans h.size
  have hnodup : (s.cache.dropExpired (s.now e)).keys.Nodup := (s.cache.dropExpired _).nodup
  have hafter := keysAfter_iff (k := key) hnodup hlen hpos
  have hfits : Fits s e ↔ (key ∈ (s.cache.dropExpired (s.now e)).keys →
      (s.cache.dropExpired (s.now e)).keys.length = 1 ∨
        ((s.cache.dropExpired (s.now e)).keys.head? = some key ↔
          (s.cache.dropExpired (s.now e)).keys.length = s.cache.maxEntries)) := by
    rw [mem_keys_dropExpired]
    simp only [Fits, he, Call.put.injEq, and_imp, liveEntries, Dict.keys, List.length_map,
      List.head?_map]
    constructor
    · exact fun hf => hf key body rfl rfl
    · rintro hf _ _ rfl rfl
      exact hf
  have hlast : (step s e).cache.store.items.length =
      (keysAfter s.cache.maxEntries key (s.cache.dropExpired (s.now e)).keys).length := by
    rw [step_put he hpos, ← hkeys, Dict.keys, List.length_map]
  have hstored : (step s e).cache.store.keys =
      keysAfter s.cache.maxEntries key (s.cache.dropExpired (s.now e)).keys := by
    rw [step_put he hpos, ← hkeys]
  rw [hfits]
  refine Iff.trans ?_ hafter
  constructor
  · intro hlaw
    refine ⟨fun hkey k hk hne => ?_, fun hhead => ?_⟩
    · rw [← hstored]
      exact hlaw.spares key body he (mem_keys_dropExpired.1 hkey) k hne (mem_keys_dropExpired.1 hk)
    · rw [← hlast]
      refine hlaw.notNext key body he ?_
      rw [oldest, hstored]
      exact hhead
  · rintro ⟨hspares, hnext⟩
    refine ⟨?_, fun k _ hput hlive k' hne hlive' => ?_, fun k _ hput hold => ?_,
      fun k hget => ?_⟩
    · rw [hlast]
      exact keysAfter_length hpos hlen
    · rw [he] at hput
      cases hput
      rw [hstored]
      exact hspares (mem_keys_dropExpired.2 hlive) k' (mem_keys_dropExpired.2 hlive') hne
    · rw [he] at hput
      cases hput
      rw [hlast]
      refine hnext ?_
      rwa [oldest, hstored] at hold
    · rw [he] at hget
      cases hget

theorem law_iff_fits {s : Tracked ρ} (h : Inv s) (e : Event ρ) : Law s e ↔ Fits s e := by
  cases he : e.call with
  | get key =>
    refine ⟨fun _ k body hput => ?_, fun _ => law_get h he⟩
    rw [he] at hput
    cases hput
  | put key body =>
    rcases Nat.eq_zero_or_pos s.cache.maxEntries with hzero | hpos
    · obtain ⟨hstep, hnone⟩ := step_put_zero h he hzero
      constructor
      · intro _ k _ _ hlive
        rw [hnone] at hlive
        cases hlive
      · intro _
        refine ⟨?_, fun k _ _ hlive => ?_, fun k _ _ hold => ?_, fun k hget => ?_⟩
        · rw [hstep]
          exact Nat.zero_le _
        · rw [hnone] at hlive
          cases hlive
        · rw [hstep] at hold
          cases hold
        · rw [he] at hget
          cases hget
    · exact law_put_iff h hpos he

theorem law_iff (ttl : Micros) (maxEntries : Nat) (clock : Micros) (es : List (Event ρ)) :
    Trace.Along step Law (.start ttl maxEntries clock) es ↔
      Trace.Along step Fits (.start ttl maxEntries clock) es :=
  Trace.Along.congr (fun _ _ => inv_step) (fun _ e h => law_iff_fits h e)
    (inv_start ttl maxEntries clock)

/-! ## Two live keys in a cache for two -/

def rewrites : List (Event String) :=
  [⟨0, .put "a" "1"⟩, ⟨1, .put "b" "2"⟩, ⟨1, .put "b" "3"⟩]

/-- The third `put` writes a key that is there, and evicts the other one. -/
theorem rewrite_evicts : ¬ Trace.Along step Law (.start 300000000 2 0) rewrites := by
  rintro ⟨_, _, hlaw, _⟩
  exact absurd (hlaw.spares "b" "3" rfl (by decide +kernel) "a" (by decide) (by decide +kernel))
    (by decide +kernel)

end IdempotencyCache

end Constat
