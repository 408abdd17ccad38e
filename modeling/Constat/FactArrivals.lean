import Mathlib.Data.List.Chain
import Constat.FactBatch

/-!
# FactArrivals

Facts that reach `upsert_facts` one call after another: from a live collection, a late worker, a
replay of old observations. The update takes what arrives, whenever it was observed.

* `received`    — the facts of one key: the stored one, then the arrivals in their order.
* `LatestWins`  — the stored fact is the one observed last, and its `observed_at` never decreases.
* `latestWins_iff` — that is so exactly when the facts arrive in the order they were observed in.
-/

namespace Constat

namespace Facts

/-- A fact and the run that observed it. -/
abbrev Arrival := Fact × Option Uuid

def Arrival.shown (a : Arrival) : Shown := ⟨a.1.value, a.1.valueState, a.1.observedAt, a.2⟩

def arrive (s : DbSession) (a : Arrival) : Except DbError DbSession :=
  (upsertFacts s [a.1] a.2).map (·.1)

def arriveAll (s : DbSession) (arrivals : List Arrival) : Except DbError DbSession :=
  arrivals.foldlM arrive s

/-- What the arrivals show of the key. -/
def ofKey (k : FactKey) (arrivals : List Arrival) : List Shown :=
  (arrivals.filter fun a => keyOf a.1 = k).map Arrival.shown

def received (k : FactKey) (stored : Option Shown) (arrivals : List Arrival) : List Shown :=
  stored.toList ++ ofKey k arrivals

/-- `v` is one of `l`, the one observed last. -/
def ObservedLast (v : Option Shown) (l : List Shown) : Prop :=
  (∀ x, v = some x → x ∈ l) ∧ ∀ x ∈ l, ∃ w, v = some w ∧ x.observedAt ≤ w.observedAt

/-- No arrival takes the stored `observed_at` of the key back. -/
def NeverDecreases (k : FactKey) (s : DbSession) (arrivals : List Arrival) : Prop :=
  ∀ before a after, arrivals = before ++ a :: after →
    ∀ s₁ s₂ v₁, arriveAll s before = .ok s₁ → arrive s₁ a = .ok s₂ →
      Shows s₁.working.facts k (some v₁) →
      ∃ v₂, Shows s₂.working.facts k (some v₂) ∧ v₁.observedAt ≤ v₂.observedAt

structure LatestWins (k : FactKey) (s : DbSession) (stored : Option Shown)
    (arrivals : List Arrival) : Prop where
  last : ∀ s' v, arriveAll s arrivals = .ok s' → Shows s'.working.facts k v →
    ObservedLast v (received k stored arrivals)
  rising : NeverDecreases k s arrivals

section

variable {s s' : DbSession} {k : FactKey} {v : Option Shown} {a : Arrival}
  {arrivals : List Arrival}

theorem ofKey_cons_eq (h : keyOf a.1 = k) : ofKey k (a :: arrivals) = a.shown :: ofKey k arrivals := by
  rw [ofKey, List.filter_cons, if_pos (decide_eq_true h)]
  rfl

theorem ofKey_cons_ne (h : keyOf a.1 ≠ k) : ofKey k (a :: arrivals) = ofKey k arrivals := by
  rw [ofKey, List.filter_cons, decide_eq_false h]
  rfl

/-! ## One arrival -/

theorem arrive_ok (h : arrive s a = .ok s') : ∃ counts, upsertFacts s [a.1] a.2 = .ok (s', counts) := by
  unfold arrive at h
  cases hone : upsertFacts s [a.1] a.2 with
  | error e => rw [hone] at h; cases h
  | ok r =>
    rw [hone] at h
    cases h
    exact ⟨r.2, rfl⟩

/-- What arrives under the key is shown, whatever was before. -/
theorem shows_arrive_eq (h : arrive s a = .ok s') : Shows s'.working.facts (keyOf a.1) (some a.shown) := by
  obtain ⟨counts, hup⟩ := arrive_ok h
  obtain ⟨o, ho⟩ := (upsertFacts_cases hup).2 a.1 (List.mem_singleton_self _)
  rw [upsertFacts_working hup]
  refine ⟨_, rowAt_upserted_single _ ho, ?_⟩
  cases o <;> rfl

theorem shows_arrive_ne (h : arrive s a = .ok s') (hne : keyOf a.1 ≠ k)
    (hv : Shows s.working.facts k v) : Shows s'.working.facts k v := by
  obtain ⟨counts, hup⟩ := arrive_ok h
  rw [upsertFacts_working hup]
  exact shows_upserted_other (by simpa using hne) hv

theorem arriveAll_cons : arriveAll s (a :: arrivals) = .ok s' ↔
    ∃ s₁, arrive s a = .ok s₁ ∧ arriveAll s₁ arrivals = .ok s' := Loop.foldlM_cons_ok

/-! ## A run of arrivals -/

/-- The last arrival of the key is shown. -/
theorem shows_arriveAll (h : arriveAll s arrivals = .ok s') (hv : Shows s.working.facts k v) :
    Shows s'.working.facts k (received k v arrivals).getLast? := by
  induction arrivals generalizing s v with
  | nil =>
    cases h
    cases v <;> exact hv
  | cons a arrivals ih =>
    obtain ⟨s₁, ha, hrest⟩ := arriveAll_cons.1 h
    by_cases hk : keyOf a.1 = k
    · have hlast := ih hrest (hk ▸ shows_arrive_eq ha)
      rw [received, ofKey_cons_eq hk, List.getLast?_append]
      cases hl : (a.shown :: ofKey k arrivals).getLast? with
      | none => cases List.getLast?_eq_none_iff.1 hl
      | some w =>
        rw [Option.some_or]
        rwa [received, Option.toList_some, List.singleton_append, hl] at hlast
    · rw [received, ofKey_cons_ne hk]
      exact ih hrest (shows_arrive_ne ha hk hv)

theorem neverDecreases_cons {s₁ : DbSession} (ha : arrive s a = .ok s₁) :
    NeverDecreases k s (a :: arrivals) ↔
      (∀ v₁, Shows s.working.facts k (some v₁) →
        ∃ v₂, Shows s₁.working.facts k (some v₂) ∧ v₁.observedAt ≤ v₂.observedAt) ∧
      NeverDecreases k s₁ arrivals := by
  constructor
  · intro h
    refine ⟨fun v₁ hv₁ => h [] a arrivals rfl s s₁ v₁ rfl ha hv₁, ?_⟩
    intro before b after heq t₁ t₂ v₁ hbefore hb hv₁
    exact h (a :: before) b after (by rw [heq]; rfl) t₁ t₂ v₁
      (arriveAll_cons.2 ⟨s₁, ha, hbefore⟩) hb hv₁
  · rintro ⟨hfirst, hrest⟩ before b after heq t₁ t₂ v₁ hbefore hb hv₁
    cases before with
    | nil =>
      obtain ⟨rfl, rfl⟩ := List.cons.inj heq
      cases hbefore
      rw [ha] at hb
      cases hb
      exact hfirst v₁ hv₁
    | cons c before =>
      obtain ⟨rfl, rfl⟩ := List.cons.inj heq
      obtain ⟨s₂, hc, hrun⟩ := arriveAll_cons.1 hbefore
      rw [ha] at hc
      cases hc
      exact hrest before b after rfl t₁ t₂ v₁ hrun hb hv₁

/-- The stored time never decreases when each fact of the key was observed no earlier than the one
before it. -/
theorem neverDecreases_iff (h : arriveAll s arrivals = .ok s') (hv : Shows s.working.facts k v) :
    NeverDecreases k s arrivals ↔
      (received k v arrivals).IsChain fun x y => x.observedAt ≤ y.observedAt := by
  induction arrivals generalizing s v with
  | nil =>
    have hnone : NeverDecreases k s [] := by
      intro before a after heq
      cases before <;> cases heq
    have hchain : (received k v []).IsChain fun x y => x.observedAt ≤ y.observedAt := by
      cases v <;> simp [received, ofKey]
    exact ⟨fun _ => hchain, fun _ => hnone⟩
  | cons a arrivals ih =>
    obtain ⟨s₁, ha, hrest⟩ := arriveAll_cons.1 h
    rw [neverDecreases_cons ha]
    by_cases hk : keyOf a.1 = k
    · have hshown : Shows s₁.working.facts k (some a.shown) := hk ▸ shows_arrive_eq ha
      rw [ih hrest hshown, received, received, ofKey_cons_eq hk]
      have hstep : (∀ v₁, Shows s.working.facts k (some v₁) →
          ∃ v₂, Shows s₁.working.facts k (some v₂) ∧ v₁.observedAt ≤ v₂.observedAt) ↔
          ∀ v₁, v = some v₁ → v₁.observedAt ≤ a.shown.observedAt := by
        constructor
        · rintro hall v₁ rfl
          obtain ⟨v₂, hv₂, hle⟩ := hall v₁ hv
          rwa [Option.some.inj (hv₂.unique hshown)] at hle
        · intro hall v₁ hv₁
          exact ⟨a.shown, hshown, hall v₁ (hv.unique hv₁)⟩
      rw [hstep]
      cases v <;> simp
    · have hshown : Shows s₁.working.facts k v := shows_arrive_ne ha hk hv
      rw [ih hrest hshown, received, received, ofKey_cons_ne hk]
      refine and_iff_right_of_imp fun _ v₁ hv₁ => ⟨v₁, ?_, Int.le_refl _⟩
      rw [← hv.unique hv₁]
      exact hshown

/-- A chain in the order of time is in that order throughout. -/
theorem isChain_observed {l : List Shown} :
    (l.IsChain fun x y => x.observedAt ≤ y.observedAt) ↔
      l.Pairwise fun x y => x.observedAt ≤ y.observedAt := by
  have htimes : (l.map (·.observedAt)).IsChain (· ≤ ·) ↔ (l.map (·.observedAt)).Pairwise (· ≤ ·) :=
    List.isChain_iff_pairwise
  rwa [List.isChain_map, List.pairwise_map] at htimes

theorem observedLast_getLast {l : List Shown}
    (h : l.Pairwise fun x y => x.observedAt < y.observedAt) : ObservedLast l.getLast? l := by
  refine ⟨fun x hx => List.mem_of_getLast? hx, fun x hx => ?_⟩
  induction l generalizing x with
  | nil => cases hx
  | cons y l ih =>
    rw [List.pairwise_cons] at h
    cases l with
    | nil =>
      obtain rfl := List.mem_singleton.1 hx
      exact ⟨x, rfl, Int.le_refl _⟩
    | cons z l =>
      rw [List.getLast?_cons_cons]
      rcases List.mem_cons.1 hx with rfl | hx
      · obtain ⟨w, hw, hle⟩ := ih h.2 z List.mem_cons_self
        exact ⟨w, hw, Int.le_trans (Int.le_of_lt (h.1 z List.mem_cons_self)) hle⟩
      · exact ih h.2 x hx

end

/-- Of a key's facts with different `observed_at`, the latest wins exactly when they arrive in the
order they were observed in. -/
theorem latestWins_iff {s s' : DbSession} {k : FactKey} {stored : Option Shown}
    {arrivals : List Arrival} (hrun : arriveAll s arrivals = .ok s')
    (hstored : Shows s.working.facts k stored)
    (hdistinct : ((received k stored arrivals).map (·.observedAt)).Nodup) :
    LatestWins k s stored arrivals ↔
      (received k stored arrivals).Pairwise fun x y => x.observedAt < y.observedAt := by
  constructor
  · intro h
    have hchain := isChain_observed.1 ((neverDecreases_iff hrun hstored).1 h.rising)
    rw [List.Nodup, List.pairwise_map] at hdistinct
    exact hchain.imp₂ (fun x y hle hne => lt_of_le_of_ne hle hne) hdistinct
  · intro h
    refine ⟨fun s'' v hs'' hv => ?_, ?_⟩
    · rw [hrun] at hs''
      cases hs''
      rw [hv.unique (shows_arriveAll hrun hstored)]
      exact observedLast_getLast h
    · rw [neverDecreases_iff hrun hstored]
      exact isChain_observed.2 (h.imp fun hlt => Int.le_of_lt hlt)

/-! ## A late worker -/

/-- The state of a snapshot, observed at a time. -/
def observedState (state : String) (time : Micros) : Arrival :=
  (Collectors.makeFact "aws.ec2.snapshot" Collectors.Ec2.sourceName 0 time 0 "state" (.str state)
    .known, none)

def stateKey : FactKey := ⟨some 0, "aws.ec2.snapshot", "state", Collectors.Ec2.sourceName⟩

theorem oneResource_empty : Shows oneResource.working.facts stateKey none :=
  ⟨none, rowAt_none.2 fun row hrow => absurd hrow (Table.not_mem_empty row), rfl⟩

/-- The older observation arrives last and is the one that stays. -/
theorem late_worker_wins : ¬ LatestWins stateKey oneResource none
    [observedState "completed" 200, observedState "pending" 100] := by
  intro h
  obtain ⟨s', hrun⟩ : ∃ s', arriveAll oneResource
      [observedState "completed" 200, observedState "pending" 100] = .ok s' := ⟨_, rfl⟩
  have hlast := h.last s' _ hrun (shows_arriveAll hrun oneResource_empty)
  obtain ⟨w, hw, hle⟩ := hlast.2 (observedState "completed" 200).shown (by decide)
  have hshown : (observedState "pending" 100).shown = w := Option.some.inj hw
  rw [← hshown] at hle
  exact absurd hle (by decide)

theorem in_order_wins : LatestWins stateKey oneResource none
    [observedState "pending" 100, observedState "completed" 200] := by
  obtain ⟨s', hrun⟩ : ∃ s', arriveAll oneResource
      [observedState "pending" 100, observedState "completed" 200] = .ok s' := ⟨_, rfl⟩
  exact (latestWins_iff hrun oneResource_empty (by decide)).2 (by decide)

end Facts

end Constat
