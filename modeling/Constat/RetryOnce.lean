import Constat.Idempotency
import Constat.Lib.Trace

/-!
# RetryOnce

Requests to one endpoint with one Idempotency-Key, among all other requests. The lookup, the
operation and the store of the response are separate steps, so a second lookup that comes before
the first response is stored misses as well, and the operation is performed again.

* `serial`     — a lookup under the key is the first one, or finds a response.
* `Once`       — at most one of the requests has performed the operation, and all that are answered
                 have the same response.
* `Stage`      — how far the first of the requests is; in a serial run it is the only one until its
                 response is stored.
* `once_iff`   — serial runs, and among the runs that end only these, perform the operation once.
-/

namespace Constat

namespace Idempotency

open Trace

variable {τ ρ : Type} {β : Endpoint → Type} {perform : Operation τ β ρ} {endpoint : Endpoint}
  {key : String}

def isSame (endpoint : Endpoint) (key : String) (r : Request β) : Bool :=
  r.endpoint = endpoint ∧ r.idempotencyKey = some key

def Mark.execution (endpoint : Endpoint) (key : String) : Mark β ρ → Option (Request β)
  | .executed r _ => if isSame endpoint key r then some r else none
  | _ => none

def Mark.answer (endpoint : Endpoint) (key : String) :
    Mark β ρ → Option (Except HttpException ρ)
  | .answered r response => if isSame endpoint key r then some response else none
  | _ => none

/-- The requests that performed the operation. -/
def executed (endpoint : Endpoint) (key : String) (s : Api τ β ρ) : List (Request β) :=
  s.log.filterMap (Mark.execution endpoint key)

def answers (endpoint : Endpoint) (key : String) (s : Api τ β ρ) :
    List (Except HttpException ρ) :=
  s.log.filterMap (Mark.answer endpoint key)

structure Once (endpoint : Endpoint) (key : String) (s : Api τ β ρ) : Prop where
  executed : (executed endpoint key s).length ≤ 1
  answers : ∀ a ∈ answers endpoint key s, ∀ b ∈ answers endpoint key s, a = b

/-- The operation of these requests is not refused. -/
def succeeds (perform : Operation τ β ρ) (endpoint : Endpoint) (key : String) (s : Api τ β ρ)
    (e : Event β) : Bool :=
  match e.call with
  | .execute tag =>
    match s.requests.get? tag with
    | some (r, .missed) =>
      !isSame endpoint key r || (perform r.endpoint r.body (s.tenants r.tenant)).2.isOk
    | _ => true
  | _ => true

/-- Some request with this key has looked its response up. -/
def begun (endpoint : Endpoint) (key : String) (s : Api τ β ρ) : Bool :=
  s.requests.items.any fun p => isSame endpoint key p.2.1

/-- A lookup under the key is the first one, or finds a response. -/
def serial (endpoint : Endpoint) (key : String) (s : Api τ β ρ) (e : Event β) : Bool :=
  match e.call with
  | .lookup r =>
    (s.requests.get? r.tag).isSome || !isSame endpoint key r || !begun endpoint key s ||
      (lookup s r e.now).2.isSome
  | _ => true

/-- All of the requests that have begun are answered. -/
def allAnswered (endpoint : Endpoint) (key : String) (s : Api τ β ρ) : Bool :=
  s.requests.items.all fun p => !isSame endpoint key p.2.1 || match p.2.2 with
    | .answered => true
    | _ => false

/-! ## Marks -/

theorem mem_executed {s : Api τ β ρ} {r : Request β} :
    r ∈ executed endpoint key s ↔
      isSame endpoint key r = true ∧ ∃ response, Mark.executed r response ∈ s.log := by
  simp only [executed, List.mem_filterMap]
  constructor
  · rintro ⟨m, hm, h⟩
    cases m with
    | executed r' response =>
      simp only [Mark.execution, Option.ite_none_right_eq_some, Option.some.injEq] at h
      obtain ⟨hsame, rfl⟩ := h
      exact ⟨hsame, response, hm⟩
    | missed r' => cases h
    | stored r' => cases h
    | answered r' response => cases h
  · rintro ⟨hsame, response, hm⟩
    exact ⟨_, hm, by simp [Mark.execution, hsame]⟩

/-- The entry a request with the key would find. -/
def entryKey (endpoint : Endpoint) (key : String) : Option String :=
  (Focus.truthy (some key)).map (makeCacheKey endpoint.scope)

theorem cacheKey_of_same {r : Request β} (h : isSame endpoint key r = true) :
    r.cacheKey = entryKey endpoint key := by
  simp only [isSame, decide_eq_true_eq] at h
  rw [Request.cacheKey, entryKey, h.1, h.2]

theorem same_of_entryKey {r : Request β} {k : String} (hk : entryKey endpoint key = some k)
    (h : r.cacheKey = some k) : isSame endpoint key r = true := by
  let r' : Request (fun _ : Endpoint => Unit) := ⟨0, 0, endpoint, some key, ()⟩
  obtain ⟨v, hv, hkv⟩ := Option.map_eq_some_iff.1 h
  obtain ⟨v', hv', hkv'⟩ := Option.map_eq_some_iff.1 hk
  obtain ⟨he, rfl⟩ := makeCacheKey_inj.1 (hkv.trans hkv'.symm)
  have hkey : v = key := (Option.some.inj (Focus.truthy_eq_some hv').1).symm
  simp [isSame, he, (Focus.truthy_eq_some hv).1, hkey]

/-! ## A serial run -/

/-- How far the first request with the key is. -/
inductive Stage (ρ : Type) where
  | idle
  | missed (tag : Uuid × Nat)
  | executed (tag : Uuid × Nat) (body : ρ)
  | answered (body : ρ)

namespace Stage

def count : Stage ρ → Nat
  | .idle | .missed _ => 0
  | .executed _ _ | .answered _ => 1

/-- The response that is stored and handed out. -/
def body? : Stage ρ → Option ρ
  | .answered body => some body
  | _ => none

/-- Where a request with the key may be. -/
def Allows : Stage ρ → Uuid × Nat → Phase ρ → Prop
  | .idle, _, _ => False
  | .missed tag, tag', phase => tag' = tag ∧ phase = .missed
  | .executed tag body, tag', phase => tag' = tag ∧ phase = .executed (.ok body)
  | .answered _, _, phase => phase = .answered

end Stage

/-- The state of the requests with the key, of their marks and of their entry. -/
structure At (endpoint : Endpoint) (key : String) (s : Api τ β ρ) (stage : Stage ρ) : Prop where
  begun : stage ≠ .idle → begun endpoint key s = true
  phases : ∀ tag r phase, s.requests.get? tag = some (r, phase) → isSame endpoint key r = true →
    stage.Allows tag phase
  executed : (executed endpoint key s).length = stage.count
  answers : ∀ a ∈ answers endpoint key s, ∃ body, stage.body? = some body ∧ a = .ok body
  entry : ∀ k entry, entryKey endpoint key = some k → s.cache.store.get? k = some entry →
    stage.body? = some entry.2

theorem At.once {s : Api τ β ρ} {stage : Stage ρ} (h : At endpoint key s stage) :
    Once endpoint key s := by
  refine ⟨?_, fun a ha b hb => ?_⟩
  · rw [h.executed]
    cases stage <;> simp [Stage.count]
  · obtain ⟨body, hbody, rfl⟩ := h.answers a ha
    obtain ⟨body', hbody', rfl⟩ := h.answers b hb
    rw [hbody] at hbody'
    rw [Option.some.inj hbody']

theorem begun_iff {s : Api τ β ρ} : begun endpoint key s = true ↔
    ∃ tag r phase, s.requests.get? tag = some (r, phase) ∧ isSame endpoint key r = true := by
  simp only [begun, List.any_eq_true]
  constructor
  · rintro ⟨⟨tag, r, phase⟩, hp, hsame⟩
    exact ⟨tag, r, phase, Dict.get?_eq_some.2 hp, hsame⟩
  · rintro ⟨tag, r, phase, hget, hsame⟩
    exact ⟨(tag, r, phase), Dict.get?_eq_some.1 hget, hsame⟩

/-- A request that is set in place of itself, or is new, begins and ends nothing. -/
theorem begun_set {s s' : Api τ β ρ} {tag : Uuid × Nat} {r : Request β} {phase : Phase ρ}
    (hset : s'.requests = s.requests.set tag (r, phase))
    (hold : ∀ r' phase', s.requests.get? tag = some (r', phase') → r' = r)
    (h : begun endpoint key s = true) : begun endpoint key s' = true := by
  obtain ⟨tag', r', phase', hget, hsame⟩ := begun_iff.1 h
  rw [begun_iff, hset]
  by_cases htag : tag' = tag
  · subst htag
    refine ⟨tag', r, phase, by simp [Dict.get?_set], ?_⟩
    rw [← hold r' phase' hget]
    exact hsame
  · exact ⟨tag', r', phase', by simp [Dict.get?_set, htag, hget], hsame⟩

/-- A step of another request. -/
theorem At.other {s s' : Api τ β ρ} {stage : Stage ρ} (h : At endpoint key s stage)
    {tag : Uuid × Nat} {r : Request β} {phase : Phase ρ} {marks : List (Mark β ρ)}
    (hr : isSame endpoint key r = false)
    (hset : s'.requests = s.requests.set tag (r, phase))
    (hold : ∀ r' phase', s.requests.get? tag = some (r', phase') → r' = r)
    (hlog : s'.log = s.log ++ marks) (hmarks : ∀ m ∈ marks, m.request = r)
    (hentry : ∀ k entry, entryKey endpoint key = some k → s'.cache.store.get? k = some entry →
      s.cache.store.get? k = some entry) : At endpoint key s' stage := by
  have hexecution : marks.filterMap (Mark.execution endpoint key) = [] := by
    refine List.filterMap_eq_nil_iff.2 fun m hm => ?_
    have := hmarks m hm
    cases m <;> simp_all [Mark.execution, Mark.request]
  have hanswer : marks.filterMap (Mark.answer endpoint key) = [] := by
    refine List.filterMap_eq_nil_iff.2 fun m hm => ?_
    have := hmarks m hm
    cases m <;> simp_all [Mark.answer, Mark.request]
  refine ⟨fun hidle => begun_set hset hold (h.begun hidle), ?_, ?_, ?_, ?_⟩
  · intro tag' r' phase' hget hsame
    rw [hset, Dict.get?_set] at hget
    split at hget
    · cases hget
      simp [hr] at hsame
    · exact h.phases tag' r' phase' hget hsame
  · rw [Idempotency.executed, hlog, List.filterMap_append, hexecution, List.append_nil]
    exact h.executed
  · rw [Idempotency.answers, hlog, List.filterMap_append, hanswer, List.append_nil]
    exact h.answers
  · intro k entry hk hget
    exact h.entry k entry hk (hentry k entry hk hget)

/-- Setting the one request of the stage moves the stage. -/
theorem phases_set {s : Api τ β ρ} {stage stage' : Stage ρ} {tag : Uuid × Nat} {r : Request β}
    {phase : Phase ρ}
    (h : ∀ tag' r' phase', s.requests.get? tag' = some (r', phase') →
      isSame endpoint key r' = true → stage.Allows tag' phase')
    (hself : stage'.Allows tag phase)
    (hrest : ∀ tag' phase', tag' ≠ tag → stage.Allows tag' phase' → stage'.Allows tag' phase') :
    ∀ tag' r' phase', (s.requests.set tag (r, phase)).get? tag' = some (r', phase') →
      isSame endpoint key r' = true → stage'.Allows tag' phase' := by
  intro tag' r' phase' hget hsame
  rw [Dict.get?_set] at hget
  split at hget
  · rename_i htag
    cases hget
    rw [htag]
    exact hself
  · rename_i htag
    exact hrest tag' phase' htag (h tag' r' phase' hget hsame)

theorem At.lookup_hit {s : Api τ β ρ} {stage : Stage ρ} (h : At endpoint key s stage)
    {r : Request β} {now : Micros} {body : ρ} (hr : isSame endpoint key r = true)
    (hcached : (lookup s r now).2 = some body) : stage = .answered body := by
  rw [lookup_body, Option.bind_eq_some_iff] at hcached
  obtain ⟨k, hk, hlive⟩ := hcached
  obtain ⟨entry, hentry, rfl⟩ := Option.map_eq_some_iff.1 hlive
  rw [cacheKey_of_same hr] at hk
  have hbody := h.entry k entry hk (IdempotencyCache.live_eq_some.1 hentry).1
  cases stage with
  | answered body => exact congrArg Stage.answered (Option.some.inj hbody)
  | idle => cases hbody
  | missed tag => cases hbody
  | executed tag body => cases hbody

theorem Stage.missed_of_allows {stage : Stage ρ} {tag : Uuid × Nat}
    (h : stage.Allows tag .missed) : stage = .missed tag := by
  cases stage with
  | idle => exact h.elim
  | missed tag' => rw [h.1]
  | executed tag' body => cases h.2
  | answered body => cases h

theorem Stage.executed_of_allows {stage : Stage ρ} {tag : Uuid × Nat}
    {response : Except HttpException ρ} (h : stage.Allows tag (.executed response)) :
    ∃ body, stage = .executed tag body ∧ response = .ok body := by
  cases stage with
  | idle => exact h.elim
  | missed tag' => cases h.2
  | executed tag' body =>
    obtain ⟨rfl, hphase⟩ := h
    exact ⟨body, rfl, by cases hphase; rfl⟩
  | answered body => cases h

section

variable {s : Api τ β ρ} {e : Event β} {stage : Stage ρ} {r : Request β}

theorem At.hit (h : At endpoint key s stage) (hr : isSame endpoint key r = true) {body : ρ}
    (hnew : s.requests.get? r.tag = none) (hcached : (lookup s r e.now).2 = some body) :
    At endpoint key { s with
      cache := (lookup s r e.now).1
      requests := s.requests.set r.tag (r, .answered)
      log := s.log ++ [.answered r (.ok body)] } (.answered body) := by
  have hstage := h.lookup_hit hr hcached
  subst hstage
  have hnone : ∀ r' phase', s.requests.get? r.tag = some (r', phase') → r' = r := by
    intro r' phase' hget
    rw [hnew] at hget
    cases hget
  refine ⟨fun hidle => begun_set rfl hnone (h.begun hidle),
    phases_set h.phases rfl fun _ _ _ hallowed => hallowed, ?_, ?_, ?_⟩
  · simpa [Idempotency.executed, List.filterMap_cons, Mark.execution] using h.executed
  · intro a ha
    simp only [Idempotency.answers, List.filterMap_append, List.mem_append] at ha
    rcases ha with ha | ha
    · exact h.answers a ha
    · simp only [List.filterMap_cons, Mark.answer, hr, if_true, List.filterMap_nil,
        List.mem_singleton] at ha
      exact ⟨body, rfl, ha⟩
  · intro k entry hk hget
    exact h.entry k entry hk (lookup_store_some hget)

/-- A serial request that misses is the first one. -/
theorem At.miss (h : At endpoint key s stage) (hr : isSame endpoint key r = true)
    (hfirst : Idempotency.begun endpoint key s = false) :
    At endpoint key { s with
      cache := (lookup s r e.now).1
      requests := s.requests.set r.tag (r, .missed)
      log := s.log ++ [.missed r] } (.missed r.tag) := by
  have hidle : stage = .idle := by
    by_contra hne
    rw [h.begun hne] at hfirst
    cases hfirst
  subst hidle
  refine ⟨fun _ => ?_, phases_set h.phases ⟨rfl, rfl⟩ fun _ _ _ hallowed => hallowed.elim,
    ?_, ?_, ?_⟩
  · exact begun_iff.2 ⟨r.tag, r, .missed, by simp [Dict.get?_set], hr⟩
  · simpa [Idempotency.executed, Mark.execution, Stage.count] using h.executed
  · simpa [Idempotency.answers, Mark.answer, Stage.body?] using h.answers
  · intro k entry hk hget
    exact h.entry k entry hk (lookup_store_some hget)

variable {tag : Uuid × Nat}

theorem At.execute (h : At endpoint key s stage) (hr : isSame endpoint key r = true)
    (hphase : s.requests.get? tag = some (r, .missed)) {body : ρ} {tenants : Uuid → τ} :
    At endpoint key { s with
      tenants := tenants
      requests := s.requests.set tag (r, .executed (.ok body))
      log := s.log ++ [.executed r (.ok body)] } (.executed tag body) := by
  have hstage := Stage.missed_of_allows (h.phases tag r .missed hphase hr)
  subst hstage
  refine ⟨fun _ => begun_set rfl ?_ (h.begun (by simp)),
    phases_set h.phases ⟨rfl, rfl⟩ fun tag' phase' hne hallowed => absurd hallowed.1 hne,
    ?_, ?_, ?_⟩
  · intro r' phase' hget
    rw [hphase] at hget
    cases hget
    rfl
  · simpa [Idempotency.executed, Mark.execution, hr, Stage.count] using h.executed
  · simpa [Idempotency.answers, Mark.answer, Stage.body?] using h.answers
  · intro k entry hk hget
    exact h.entry k entry hk hget

theorem At.finish (h : At endpoint key s stage) (hr : isSame endpoint key r = true) {now : Micros}
    {response : Except HttpException ρ}
    (hphase : s.requests.get? tag = some (r, .executed response)) : ∃ body,
      At endpoint key { s with
        cache := (cacheResponse s.cache r response now).1
        requests := s.requests.set tag (r, .answered)
        log := s.log ++ (cacheResponse s.cache r response now).2 ++ [.answered r response] }
        (.answered body) := by
  obtain ⟨body, rfl, rfl⟩ := Stage.executed_of_allows (h.phases tag r _ hphase hr)
  have hstored : (cacheResponse s.cache r (.ok body) now).2.filterMap
      (Mark.execution endpoint key) = [] := by
    refine List.filterMap_eq_nil_iff.2 fun m hm => ?_
    rw [cacheResponse_marks hm]
    rfl
  have hsilent : (cacheResponse s.cache r (.ok body) now).2.filterMap
      (Mark.answer endpoint key) = [] := by
    refine List.filterMap_eq_nil_iff.2 fun m hm => ?_
    rw [cacheResponse_marks hm]
    rfl
  refine ⟨body, fun _ => begun_set rfl ?_ (h.begun (by simp)),
    phases_set h.phases rfl fun tag' phase' hne hallowed => absurd hallowed.1 hne, ?_, ?_, ?_⟩
  · intro r' phase' hget
    rw [hphase] at hget
    cases hget
    rfl
  · simpa [Idempotency.executed, List.filterMap_cons, Mark.execution, hstored, Stage.count]
      using h.executed
  · intro a ha
    simp only [Idempotency.answers, List.filterMap_append, hsilent, List.append_nil,
      List.mem_append] at ha
    rcases ha with ha | ha
    · obtain ⟨_, hnobody, _⟩ := h.answers a ha
      cases hnobody
    · simp only [List.filterMap_cons, Mark.answer, hr, if_true, List.filterMap_nil,
        List.mem_singleton] at ha
      exact ⟨body, rfl, ha⟩
  · intro k entry hk hget
    rcases cacheResponse_store_some hget with ⟨_, hresponse⟩ | hget
    · cases hresponse
      rfl
    · cases h.entry k entry hk hget

end

/-- A step of a serial run, whose operations succeed, moves the stage on or keeps it. -/
theorem at_step {s : Api τ β ρ} {e : Event β} {stage : Stage ρ} (h : At endpoint key s stage)
    (hserial : serial endpoint key s e = true)
    (hok : succeeds perform endpoint key s e = true) :
    ∃ stage', At endpoint key (step perform s e) stage' := by
  have hmove := step_moves perform s e
  generalize step perform s e = s' at hmove
  have hnone : ∀ {tag : Uuid × Nat} {r : Request β}, s.requests.get? tag = none →
      ∀ r' phase', s.requests.get? tag = some (r', phase') → r' = r := by
    intro tag r hnew r' phase' hget
    rw [hnew] at hget
    cases hget
  have hself : ∀ {tag : Uuid × Nat} {r : Request β} {phase : Phase ρ},
      s.requests.get? tag = some (r, phase) →
      ∀ r' phase', s.requests.get? tag = some (r', phase') → r' = r := by
    intro tag r phase hphase r' phase' hget
    rw [hphase] at hget
    cases hget
    rfl
  cases hmove with
  | idle => exact ⟨stage, h⟩
  | @hit r body hcall hnew hcached =>
    cases hr : isSame endpoint key r with
    | false =>
      exact ⟨stage, h.other hr rfl (hnone hnew) rfl (by simp [Mark.request])
        fun k entry _ hget => lookup_store_some hget⟩
    | true => exact ⟨_, h.hit hr hnew hcached⟩
  | @miss r hcall hnew hcached =>
    cases hr : isSame endpoint key r with
    | false =>
      exact ⟨stage, h.other hr rfl (hnone hnew) rfl (by simp [Mark.request])
        fun k entry _ hget => lookup_store_some hget⟩
    | true =>
      exact ⟨_, h.miss hr (by simpa [serial, hcall, hnew, hr, hcached] using hserial)⟩
  | @execute tag r hcall hphase =>
    cases hr : isSame endpoint key r with
    | false =>
      exact ⟨stage, h.other hr rfl (hself hphase) rfl (by simp [Mark.request])
        fun k entry _ hget => hget⟩
    | true =>
      have hbody : (perform r.endpoint r.body (s.tenants r.tenant)).2.isOk = true := by
        simpa [succeeds, hcall, hphase, hr] using hok
      cases hresponse : (perform r.endpoint r.body (s.tenants r.tenant)).2 with
      | error e => simp [hresponse, Except.isOk, Except.toBool] at hbody
      | ok body => exact ⟨_, h.execute hr hphase⟩
  | @finish tag r response hcall hphase =>
    cases hr : isSame endpoint key r with
    | false =>
      refine ⟨stage, h.other hr rfl (hself hphase) (List.append_assoc _ _ _) ?_ ?_⟩
      · intro m hm
        rcases List.mem_append.1 hm with hm | hm
        · rw [cacheResponse_marks hm]; rfl
        · rw [List.mem_singleton.1 hm]; rfl
      · intro k entry hk hget
        rcases cacheResponse_store_some hget with ⟨hkey, _⟩ | hget
        · rw [same_of_entryKey hk hkey] at hr
          cases hr
        · exact hget
    | true =>
      obtain ⟨body, hat⟩ := h.finish hr hphase
      exact ⟨_, hat⟩

/-! ## A run that ends -/

/-- What the marks say of the requests that have begun: those that missed are still to perform the
operation or have performed it, and without one that missed there is none with the key. -/
structure Marked (endpoint : Endpoint) (key : String) (s : Api τ β ρ) : Prop where
  tags : ∀ tag r phase, s.requests.get? tag = some (r, phase) → r.tag = tag
  missed : ∀ r, Mark.missed r ∈ s.log → ∃ phase, s.requests.get? r.tag = some (r, phase) ∧
    (phase = .missed ∨ ∃ response, Mark.executed r response ∈ s.log)
  waiting : ∀ tag r phase, s.requests.get? tag = some (r, phase) → phase ≠ .answered →
    Mark.missed r ∈ s.log
  begun : ∀ tag r phase, s.requests.get? tag = some (r, phase) → isSame endpoint key r = true →
    ∃ first, Mark.missed first ∈ s.log ∧ isSame endpoint key first = true
  entry : ∀ k entry, entryKey endpoint key = some k → s.cache.store.get? k = some entry →
    ∃ first, Mark.missed first ∈ s.log ∧ isSame endpoint key first = true

theorem Marked.set {s s' : Api τ β ρ} (h : Marked endpoint key s) {r : Request β}
    {phase : Phase ρ} {marks : List (Mark β ρ)}
    (hset : s'.requests = s.requests.set r.tag (r, phase)) (hlog : s'.log = s.log ++ marks)
    (hold : ∀ r' phase', s.requests.get? r.tag = some (r', phase') → r' = r)
    (hexecuted : s.requests.get? r.tag = some (r, .missed) →
      ∃ response, Mark.executed r response ∈ marks)
    (hmarks : ∀ r', Mark.missed r' ∈ marks → r' = r ∧ phase = .missed)
    (hwaiting : phase ≠ .answered → Mark.missed r ∈ s'.log)
    (hbegun : isSame endpoint key r = true →
      ∃ first, Mark.missed first ∈ s'.log ∧ isSame endpoint key first = true)
    (hentry : ∀ k entry, entryKey endpoint key = some k → s'.cache.store.get? k = some entry →
      s.cache.store.get? k = some entry ∨ isSame endpoint key r = true) :
    Marked endpoint key s' := by
  have hgrow : ∀ {m}, m ∈ s.log → m ∈ s'.log := fun hm => hlog ▸ List.mem_append_left _ hm
  have hget : ∀ tag r' phase', s'.requests.get? tag = some (r', phase') →
      (tag = r.tag ∧ r' = r ∧ phase' = phase) ∨
        (tag ≠ r.tag ∧ s.requests.get? tag = some (r', phase')) := by
    intro tag r' phase' hget
    rw [hset, Dict.get?_set] at hget
    split at hget
    · rename_i htag
      cases hget
      exact .inl ⟨htag, rfl, rfl⟩
    · rename_i htag
      exact .inr ⟨htag, hget⟩
  refine ⟨fun tag r' phase' h' => ?_, fun r' hr' => ?_, fun tag r' phase' h' hopen => ?_,
    fun tag r' phase' h' hsame => ?_, fun k entry hk h' => ?_⟩
  · rcases hget tag r' phase' h' with ⟨rfl, rfl, rfl⟩ | ⟨_, hkept⟩
    · rfl
    · exact h.tags tag r' phase' hkept
  · rw [hlog, List.mem_append] at hr'
    rcases hr' with hr' | hr'
    · obtain ⟨phase', hphase', hdone⟩ := h.missed r' hr'
      by_cases htag : r'.tag = r.tag
      · rw [htag] at hphase'
        have hself := hold r' phase' hphase'
        subst hself
        refine ⟨phase, by rw [hset, Dict.get?_set, if_pos rfl], .inr ?_⟩
        rcases hdone with rfl | ⟨response, hresponse⟩
        · obtain ⟨response, hresponse⟩ := hexecuted hphase'
          exact ⟨response, hlog ▸ List.mem_append_right _ hresponse⟩
        · exact ⟨response, hgrow hresponse⟩
      · refine ⟨phase', by rw [hset, Dict.get?_set, if_neg htag]; exact hphase', ?_⟩
        exact hdone.imp_right (Exists.imp fun _ hresponse => hgrow hresponse)
    · obtain ⟨rfl, rfl⟩ := hmarks r' hr'
      exact ⟨.missed, by rw [hset, Dict.get?_set, if_pos rfl], .inl rfl⟩
  · rcases hget tag r' phase' h' with ⟨rfl, rfl, rfl⟩ | ⟨_, hkept⟩
    · exact hwaiting hopen
    · exact hgrow (h.waiting tag r' phase' hkept hopen)
  · rcases hget tag r' phase' h' with ⟨rfl, rfl, rfl⟩ | ⟨_, hkept⟩
    · exact hbegun hsame
    · obtain ⟨first, hfirst, hsame⟩ := h.begun tag r' phase' hkept hsame
      exact ⟨first, hgrow hfirst, hsame⟩
  · rcases hentry k entry hk h' with hkept | hsame
    · obtain ⟨first, hfirst, hsame⟩ := h.entry k entry hk hkept
      exact ⟨first, hgrow hfirst, hsame⟩
    · exact hbegun hsame

theorem Marked.step (perform : Operation τ β ρ) {s : Api τ β ρ} (h : Marked endpoint key s)
    (e : Event β) :
    Marked endpoint key (step perform s e) := by
  have hmove := step_moves perform s e
  generalize Idempotency.step perform s e = s' at hmove
  cases hmove with
  | idle => exact h
  | @hit r body hcall hnew hcached =>
    refine h.set rfl rfl (by simp [hnew]) (by simp [hnew]) (by simp) (by simp) (fun hsame => ?_)
      fun k entry _ hget => .inl (lookup_store_some hget)
    rw [lookup_body, Option.bind_eq_some_iff] at hcached
    obtain ⟨k, hk, hlive⟩ := hcached
    obtain ⟨entry, hentry, _⟩ := Option.map_eq_some_iff.1 hlive
    rw [cacheKey_of_same hsame] at hk
    obtain ⟨first, hfirst, hsame⟩ := h.entry k entry hk (IdempotencyCache.live_eq_some.1 hentry).1
    exact ⟨first, List.mem_append_left _ hfirst, hsame⟩
  | @miss r hcall hnew hcached =>
    exact h.set rfl rfl (by simp [hnew]) (by simp [hnew]) (by simp) (by simp)
      (fun hsame => ⟨r, by simp, hsame⟩) fun k entry _ hget => .inl (lookup_store_some hget)
  | @execute tag r hcall hphase =>
    have htag := h.tags tag r _ hphase
    subst htag
    have hmissed := h.waiting _ r _ hphase (by simp)
    exact h.set rfl rfl (fun r' phase' hget => by rw [hphase] at hget; cases hget; rfl)
      (fun _ => ⟨_, List.mem_singleton.2 rfl⟩) (by simp)
      (fun _ => List.mem_append_left _ hmissed)
      (fun hsame => ⟨r, List.mem_append_left _ hmissed, hsame⟩) fun k entry _ hget => .inl hget
  | @finish tag r response hcall hphase =>
    have htag := h.tags tag r _ hphase
    subst htag
    have hmissed := h.waiting _ r _ hphase (by simp)
    refine h.set rfl (List.append_assoc _ _ _)
      (fun r' phase' hget => by rw [hphase] at hget; cases hget; rfl)
      (fun hget => by rw [hphase] at hget; cases hget) (fun r' hr' => ?_) (by simp)
      (fun hsame => ⟨r, List.mem_append_left _ (List.mem_append_left _ hmissed), hsame⟩)
      fun k entry hk hget => ?_
    · rcases List.mem_append.1 hr' with hr' | hr'
      · cases cacheResponse_marks hr'
      · simp at hr'
    · rcases cacheResponse_store_some hget with ⟨hkey, _⟩ | hget
      · exact .inr (same_of_entryKey hk hkey)
      · exact .inl hget

theorem log_grows (perform : Operation τ β ρ) (s : Api τ β ρ) (e : Event β) : s.log <+: (step perform s e).log := by
  have hmove := step_moves perform s e
  generalize step perform s e = s' at hmove
  cases hmove with
  | idle => exact List.prefix_refl _
  | hit hcall hnew hcached => exact List.prefix_append _ _
  | miss hcall hnew hcached => exact List.prefix_append _ _
  | execute hcall hphase => exact List.prefix_append _ _
  | finish hcall hphase =>
    rw [List.append_assoc]
    exact List.prefix_append _ _

theorem exec_log_grows (perform : Operation τ β ρ) (es : List (Event β)) (s : Api τ β ρ) :
    s.log <+: (exec (step perform) s es).log := by
  induction es generalizing s with
  | nil => exact List.prefix_refl _
  | cons e es ih => exact (log_grows perform s e).trans (ih _)

/-- A request that missed has performed the operation once it is answered. -/
theorem Marked.mem_executed {s : Api τ β ρ} (h : Marked endpoint key s)
    (hdone : allAnswered endpoint key s = true) {r : Request β} (hr : Mark.missed r ∈ s.log)
    (hsame : isSame endpoint key r = true) : r ∈ executed endpoint key s := by
  obtain ⟨phase, hget, hphase⟩ := h.missed r hr
  rw [allAnswered, List.all_eq_true] at hdone
  have hanswered := hdone _ (Dict.get?_eq_some.1 hget)
  refine Idempotency.mem_executed.2 ⟨hsame, ?_⟩
  rcases hphase with rfl | hexecuted
  · simp [hsame] at hanswered
  · exact hexecuted

/-- A lookup that is not serial misses after another one has missed. -/
theorem missed_of_not_serial (perform : Operation τ β ρ) {s : Api τ β ρ}
    (h : Marked endpoint key s) {e : Event β}
    (hserial : serial endpoint key s e = false) :
    ∃ first second, Mark.missed first ∈ (step perform s e).log ∧
      Mark.missed second ∈ (step perform s e).log ∧ isSame endpoint key first = true ∧
      isSame endpoint key second = true ∧ first ≠ second := by
  simp only [serial] at hserial
  split at hserial
  · rename_i r hcall
    simp only [Bool.or_eq_false_iff, Bool.not_eq_false', Option.isSome_eq_false_iff,
      Option.isNone_iff_eq_none] at hserial
    obtain ⟨⟨⟨hnew, hsame⟩, hbegun⟩, hcached⟩ := hserial
    obtain ⟨tag, r', phase, hget, hsame'⟩ := begun_iff.1 hbegun
    obtain ⟨first, hfirst, hsameFirst⟩ := h.begun tag r' phase hget hsame'
    have hmove := step_moves perform s e
    have hlog : (step perform s e).log = s.log ++ [.missed r] := by
      simp [step, hcall, hnew, hcached]
    refine ⟨first, r, ?_, ?_, hsameFirst, hsame, ?_⟩
    · rw [hlog]; exact List.mem_append_left _ hfirst
    · rw [hlog]; exact List.mem_append_right _ (List.mem_singleton.2 rfl)
    · rintro rfl
      obtain ⟨phase', hget', _⟩ := h.missed _ hfirst
      rw [hnew] at hget'
      cases hget'
  · cases hserial

theorem at_start (ttl : Micros) (maxEntries : Nat) (tenants : Uuid → τ) :
    At endpoint key (.start ⟨ttl, maxEntries, .empty⟩ tenants : Api τ β ρ) .idle :=
  ⟨fun h => absurd rfl h, by simp [Api.start], rfl, by simp [Idempotency.answers, Api.start],
    by simp [Api.start]⟩

theorem marked_start (ttl : Micros) (maxEntries : Nat) (tenants : Uuid → τ) :
    Marked endpoint key (.start ⟨ttl, maxEntries, .empty⟩ tenants : Api τ β ρ) :=
  ⟨by simp [Api.start], by simp [Api.start], by simp [Api.start], by simp [Api.start],
    by simp [Api.start]⟩

/-- In a serial run the operation is performed at most once and every answer is the same; and a run
whose requests are all answered, with one operation performed, was serial. -/
theorem once_iff (perform : Operation τ β ρ) (endpoint : Endpoint) (key : String) (ttl : Micros)
    (maxEntries : Nat) (tenants : Uuid → τ) (es : List (Event β))
    (hok : Along (step perform) (fun s e => succeeds perform endpoint key s e = true)
      (.start ⟨ttl, maxEntries, .empty⟩ tenants) es) :
    (Along (step perform) (fun s e => serial endpoint key s e = true)
        (.start ⟨ttl, maxEntries, .empty⟩ tenants) es →
      Always (step perform) (Once endpoint key) (.start ⟨ttl, maxEntries, .empty⟩ tenants) es) ∧
    (allAnswered endpoint key
        (exec (step perform) (.start ⟨ttl, maxEntries, .empty⟩ tenants) es) = true →
      Once endpoint key (exec (step perform) (.start ⟨ttl, maxEntries, .empty⟩ tenants) es) →
      Along (step perform) (fun s e => serial endpoint key s e = true)
        (.start ⟨ttl, maxEntries, .empty⟩ tenants) es) := by
  constructor
  · intro hserial
    have hstages := Along.always (I := fun s => ∃ stage, At endpoint key s stage)
      (fun s e ⟨stage, hat⟩ ⟨hok, hserial⟩ => at_step hat hserial hok)
      ⟨.idle, at_start ttl maxEntries tenants⟩ (Along.and_iff.2 ⟨hok, hserial⟩)
    exact hstages.mono fun s ⟨stage, hat⟩ => hat.once
  · intro hdone honce
    refine Along.of_prefix fun pre e suf hes => ?_
    by_contra hnot
    have hbefore := Trace.exec_inv (I := Marked endpoint key) (fun s e h => h.step perform e)
      (marked_start ttl maxEntries tenants) pre
    obtain ⟨first, second, hfirst, hsecond, hsame, hsame', hne⟩ :=
      missed_of_not_serial perform hbefore (Bool.not_eq_true _ ▸ hnot)
    have hend := Trace.exec_inv (I := Marked endpoint key) (fun s e h => h.step perform e)
      (marked_start ttl maxEntries tenants) es
    have hlog := exec_log_grows perform suf
      (step perform (exec (step perform) (.start ⟨ttl, maxEntries, .empty⟩ tenants) pre) e)
    rw [← exec_cons, ← exec_append, ← hes] at hlog
    have hmem := hend.mem_executed hdone (hlog.subset hfirst) hsame
    have hmem' := hend.mem_executed hdone (hlog.subset hsecond) hsame'
    have htwo := honce.executed
    generalize executed endpoint key
      (exec (step perform) (.start ⟨ttl, maxEntries, .empty⟩ tenants) es) = l at *
    match l, htwo with
    | [], _ => cases hmem
    | [r], _ =>
      exact hne ((List.mem_singleton.1 hmem).trans (List.mem_singleton.1 hmem').symm)

/-- A collection of one account that a client posts again under the same key. -/
def posted (number : Nat) : Request Body where
  tenant := 0
  number := number
  endpoint := .collectAws
  idempotencyKey := some "retry-1"
  body := {
    actor := "ops"
    targets := some [⟨"111111111111", none, none, none, some ["eu-west-3"], none⟩]
    force := false
    dryRun := false
    persisted := []
    sendError := none }

/-- The second request comes after the first one is answered. -/
theorem retry_once : Once .collectAws "retry-1" (exec (step (operate .exact))
    (.start .fresh fun _ => Store.empty)
    [⟨0, .lookup (posted 1)⟩, ⟨1, .execute (0, 1)⟩, ⟨2, .finish (0, 1)⟩,
      ⟨3, .lookup (posted 2)⟩]) := by
  have h := (once_iff (operate .exact) .collectAws "retry-1" (5 * 60 * 1000000) 1024
    (fun _ => Store.empty)
    [⟨0, .lookup (posted 1)⟩, ⟨1, .execute (0, 1)⟩, ⟨2, .finish (0, 1)⟩, ⟨3, .lookup (posted 2)⟩]
    (by decide +kernel)).1 (by decide +kernel)
  exact (Always.iff_prefix.1 h) _ [] (List.append_nil _).symm

/-- The second request comes while the first one is on its way: both post a job. -/
theorem overlap_twice :
    let es : List (Event Body) := [⟨0, .lookup (posted 1)⟩, ⟨1, .lookup (posted 2)⟩,
      ⟨2, .execute (0, 1)⟩, ⟨3, .finish (0, 1)⟩, ⟨4, .execute (0, 2)⟩, ⟨5, .finish (0, 2)⟩]
    Along (step (operate .exact))
        (fun s e => succeeds (operate .exact) .collectAws "retry-1" s e = true)
        (.start .fresh fun _ => Store.empty) es ∧
      ¬ Once .collectAws "retry-1"
        (exec (step (operate .exact)) (.start .fresh fun _ => Store.empty) es) := by
  refine ⟨by decide +kernel, fun h => ?_⟩
  exact absurd h.executed (by decide +kernel)

end Idempotency

end Constat
