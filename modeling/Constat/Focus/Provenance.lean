import Constat.Focus.ByTag

/-!
# Focus.Provenance

Where the canonical name of a tag bucket comes from. A charge with per-row costs, or without any
per-row data, writes its name to the buckets it contributes to. The row-count fallback writes it to
every bucket so far, those of other services included.

* `NamedIn` — a charge of that name contributes to the bucket.
* `NamesKept` — what is recorded is the name of the contributors, and neither the buckets nor their
  amounts and names depend on the order of the charges.
* `NamesAgree` — the condition for the names: the contributors of one bucket agree, and a charge
  that falls back has the name of every bucket there is.
* `SumsAgree` — the condition for the amounts: the postings to a bucket add up to the same sums in
  every order. They do as long as they fit in 28 digits (`ExactSums`).
-/

namespace Constat

namespace Focus

namespace Loader

def Posted (ps : List Posting) (k : CostKey) : Prop := ∃ p ∈ ps, p.key = k

/-- A charge with canonical name `n` contributes to the bucket `k`. -/
def NamedIn (tagKey : String) (charges : List DecimalCharge) (k : CostKey) (n : String) : Prop :=
  ∃ c ∈ charges, c.serviceCanonical = some n ∧ Posted (c.postings tagKey) k

/-- The key of an output row. -/
def outputKey (a : LoadedCost) : CostKey where
  accountId := a.accountId
  service := a.service
  periodStart := a.periodStart.getD ⟨0⟩
  periodEnd := a.periodEnd.getD ⟨0⟩
  billingCurrency := a.billingCurrency
  tagValue := a.tagValue.getD ""

/-- Key, amounts and count of one output row. -/
def costSummary (a : LoadedCost) : CostKey × Decimal × Decimal × Nat :=
  (outputKey a, a.billedCost, a.amortizedCost, a.chargeCount)

def namedBucket (a : LoadedCost) : (CostKey × Decimal × Decimal × Nat) × Option String :=
  (costSummary a, a.serviceCanonical)

/-- Two calls return the same buckets in some order, as far as `view` shows them, or both raise. -/
def SameBuckets {α : Type} (view : LoadedCost → α) : Except PyError (List LoadedCost) →
    Except PyError (List LoadedCost) → Prop
  | .ok out, .ok out' => List.Perm (out.map view) (out'.map view)
  | .error _, .error _ => True
  | _, _ => False

structure NamesKept (tagKey : String) (charges : List DecimalCharge) : Prop where
  carried : ∀ out, aggregateByTag charges tagKey = .ok out →
    ∀ a ∈ out, ∀ n, a.serviceCanonical = some n ↔ NamedIn tagKey charges (outputKey a) n
  anyOrder : ∀ charges', List.Perm charges charges' →
    SameBuckets namedBucket (aggregateByTag charges tagKey) (aggregateByTag charges' tagKey)

/-- The amounts alone do not depend on the order. -/
def AmountsKept (tagKey : String) (charges : List DecimalCharge) : Prop :=
  ∀ charges', List.Perm charges charges' →
    SameBuckets costSummary (aggregateByTag charges tagKey) (aggregateByTag charges' tagKey)

/-- The row-count fallback: tags, but no per-row costs. -/
def FallsBack (c : DecimalCharge) : Prop := c.perRowCosts = [] ∧ c.tags ≠ []

structure NamesAgree (tagKey : String) (charges : List DecimalCharge) : Prop where
  one : ∀ k n n', NamedIn tagKey charges k n → NamedIn tagKey charges k n' → n = n'
  fallback : ∀ c ∈ charges, FallsBack c → ∀ n, c.serviceCanonical = some n →
    ∀ k, Posted (charges.flatMap (·.postings tagKey)) k → NamedIn tagKey charges k n

/-- An empty tag key, or lists of different lengths. -/
def Refused (tagKey : String) (charges : List DecimalCharge) : Prop :=
  tagKey = "" ∨ ∃ c ∈ charges, c.Uneven

/-- An addition to some bucket raises. -/
def Traps (tagKey : String) (charges : List DecimalCharge) : Prop :=
  ∃ k e, bucketSums tagKey charges k = .error e

/-- Another order of the charges adds up to the same, or raises as well. -/
def SumsAgree (tagKey : String) (charges : List DecimalCharge) : Prop :=
  ∀ charges', List.Perm charges charges' →
    (Traps tagKey charges ∧ Traps tagKey charges') ∨
      (¬ Traps tagKey charges ∧ ∀ k, bucketSums tagKey charges' k = bucketSums tagKey charges k)

section

variable {tagKey : String} {charges charges' : List DecimalCharge}

theorem refused_perm (h : List.Perm charges charges') :
    Refused tagKey charges ↔ Refused tagKey charges' := by
  simp only [Refused, h.mem_iff]

theorem namedIn_perm (h : List.Perm charges charges') (k : CostKey) (n : String) :
    NamedIn tagKey charges k n ↔ NamedIn tagKey charges' k n := by
  simp only [NamedIn, h.mem_iff]

theorem NamesAgree.perm (h : NamesAgree tagKey charges) (hperm : List.Perm charges charges') :
    NamesAgree tagKey charges' := by
  refine ⟨?_, ?_⟩
  · intro k n n' hn hn'
    exact h.one k n n' ((namedIn_perm hperm k n).2 hn) ((namedIn_perm hperm k n').2 hn')
  · intro c hc hfb n hname k hk
    refine (namedIn_perm hperm k n).1 (h.fallback c (hperm.mem_iff.2 hc) hfb n hname k ?_)
    obtain ⟨p, hp, hpk⟩ := hk
    exact ⟨p, (hperm.flatMap_right _).mem_iff.2 hp, hpk⟩

/-! ## What one charge records -/

theorem get?_canonical_charge {b b' : LoadedBuckets} {c : DecimalCharge}
    (h : addCharge tagKey b c = .ok b') (k : CostKey) :
    b'.canonical.get? k = c.serviceCanonical.elim (b.canonical.get? k) fun n =>
      if k ∈ canonicalKeys tagKey c b'.sums.keys then some n else b.canonical.get? k := by
  obtain ⟨sums, _, _, rfl⟩ := addCharge_ok.1 h
  cases c.serviceCanonical with
  | none => rfl
  | some n =>
    simp only [Option.elim_some]
    rw [Dict.get?_foldl_set (fun k : CostKey => k) (fun _ => n) _ _ _ fun _ _ _ _ _ => rfl]
    by_cases hk : k ∈ canonicalKeys tagKey c sums.keys
    · rw [if_pos hk]
      cases hfind : (canonicalKeys tagKey c sums.keys).find? fun k' => k' = k with
      | none => exact absurd (decide_eq_true rfl) (List.find?_eq_none.1 hfind k hk)
      | some k' => rfl
    · rw [if_neg hk, List.find?_eq_none.2]
      intro k' hk' he
      exact hk (of_decide_eq_true he ▸ hk')

theorem mem_keys_addCharge {b b' : LoadedBuckets} {c : DecimalCharge}
    (h : addCharge tagKey b c = .ok b') (k : CostKey) :
    k ∈ b'.sums.keys ↔ k ∈ b.sums.keys ∨ Posted (c.postings tagKey) k := by
  obtain ⟨sums, hsums, _, rfl⟩ := addCharge_ok.1 h
  exact Dict.mem_keys_loopM hsums k

/-- A charge that does not fall back names the buckets it contributes to. -/
theorem mem_canonicalKeys {b b' : LoadedBuckets} {c : DecimalCharge}
    (h : addCharge tagKey b c = .ok b') (k : CostKey) :
    k ∈ canonicalKeys tagKey c b'.sums.keys ↔
      Posted (c.postings tagKey) k ∨ (FallsBack c ∧ k ∈ b.sums.keys) := by
  unfold canonicalKeys
  split
  · rename_i hfb
    rw [mem_keys_addCharge h, or_comm]
    exact or_congr_right ⟨fun h => ⟨hfb, h⟩, fun h => h.2⟩
  · rename_i hfb
    rw [List.mem_map]
    constructor
    · rintro ⟨p, hp, hk⟩
      exact .inl ⟨p, hp, hk⟩
    · rintro (⟨p, hp, hk⟩ | ⟨h, _⟩)
      · exact ⟨p, hp, hk⟩
      · exact absurd h hfb

/-! ## What a run records -/

/-- The names recorded after the charges `done` of `charges`. -/
structure Recorded (tagKey : String) (charges done : List DecimalCharge) (b : LoadedBuckets) :
    Prop where
  keys : ∀ k ∈ b.sums.keys, Posted (charges.flatMap (·.postings tagKey)) k
  sound : ∀ k n, b.canonical.get? k = some n → NamedIn tagKey charges k n
  complete : ∀ k n, NamedIn tagKey done k n → b.canonical.get? k ≠ none

theorem recorded_empty (tagKey : String) (charges : List DecimalCharge) :
    Recorded tagKey charges [] .empty := by
  refine ⟨?_, ?_, ?_⟩
  · intro k hk
    cases hk
  · intro k n hn
    cases hn
  · rintro k n ⟨c, hc, _⟩
    cases hc

theorem Recorded.addCharge (hagree : NamesAgree tagKey charges) {done : List DecimalCharge}
    {b b' : LoadedBuckets} (h : Recorded tagKey charges done b) {c : DecimalCharge}
    (hc : c ∈ charges) (hstep : Loader.addCharge tagKey b c = .ok b') :
    Recorded tagKey charges (done ++ [c]) b' := by
  have hposted : ∀ {k}, Posted (c.postings tagKey) k →
      Posted (charges.flatMap (·.postings tagKey)) k := by
    rintro k ⟨p, hp, hk⟩
    exact ⟨p, List.mem_flatMap.2 ⟨c, hc, hp⟩, hk⟩
  refine ⟨?_, ?_, ?_⟩
  · intro k hk
    rcases (mem_keys_addCharge hstep k).1 hk with hk | hk
    · exact h.keys k hk
    · exact hposted hk
  · intro k n hn
    rw [get?_canonical_charge hstep] at hn
    cases hname : c.serviceCanonical with
    | none => rw [hname] at hn; exact h.sound k n hn
    | some m =>
      simp only [hname, Option.elim_some] at hn
      split at hn
      · rename_i hk
        cases hn
        rcases (mem_canonicalKeys hstep k).1 hk with hk | ⟨hfb, hk⟩
        · exact ⟨c, hc, hname, hk⟩
        · exact hagree.fallback c hc hfb n hname k (h.keys k hk)
      · exact h.sound k n hn
  · rintro k n ⟨d, hd, hname, hk⟩
    rw [get?_canonical_charge hstep]
    rcases List.mem_append.1 hd with hd | hd
    · have hb := h.complete k n ⟨d, hd, hname, hk⟩
      cases c.serviceCanonical with
      | none => exact hb
      | some m =>
        simp only [Option.elim_some]
        split
        · exact Option.some_ne_none _
        · exact hb
    · rw [List.mem_singleton] at hd
      subst hd
      rw [hname, Option.elim_some, if_pos ((mem_canonicalKeys hstep k).2 (.inl hk))]
      exact Option.some_ne_none _

theorem recorded_foldlM (hagree : NamesAgree tagKey charges) {l : List DecimalCharge}
    (hl : ∀ c ∈ l, c ∈ charges) : ∀ {done : List DecimalCharge} {b b' : LoadedBuckets},
      Recorded tagKey charges done b → l.foldlM (Loader.addCharge tagKey) b = .ok b' →
        Recorded tagKey charges (done ++ l) b' := by
  induction l with
  | nil =>
    intro done b b' h hrun
    cases hrun
    simpa using h
  | cons c l ih =>
    intro done b b' h hrun
    rw [List.forall_mem_cons] at hl
    obtain ⟨b₁, hstep, hrest⟩ := Loop.foldlM_cons_ok.1 hrun
    have := ih hl.2 (h.addCharge hagree hl.1 hstep) hrest
    simpa using this

/-- When the names agree, a bucket has the name of its contributors. -/
theorem NamesAgree.serviceCanonical (hagree : NamesAgree tagKey charges) {out : List LoadedCost}
    (h : aggregateByTag charges tagKey = .ok out) {a : LoadedCost} (ha : a ∈ out) (n : String) :
    a.serviceCanonical = some n ↔ NamedIn tagKey charges (outputKey a) n := by
  obtain ⟨_, b, hb, rfl⟩ := aggregateByTag_ok_iff.1 h
  have hrun : Recorded tagKey charges ([] ++ charges) b :=
    recorded_foldlM hagree (fun _ hc => hc) (recorded_empty tagKey charges) hb
  rw [List.nil_append] at hrun
  obtain ⟨p, _, rfl⟩ := List.mem_map.1 ha
  have hkey : outputKey (tagCost tagKey b p) = p.1 := rfl
  rw [hkey]
  constructor
  · exact hrun.sound p.1 n
  · intro hn
    obtain ⟨m, hm⟩ := Option.ne_none_iff_exists'.1 (hrun.complete p.1 n hn)
    rw [hagree.one p.1 n m hn (hrun.sound p.1 m hm)]
    exact hm

/-! ## The condition on the names -/

/-- A charge that falls back last has its name written to every bucket. -/
theorem canonical_of_fallback_last {c : DecimalCharge} (hfb : FallsBack c) {n : String}
    (hname : c.serviceCanonical = some n) {l : List DecimalCharge} {out : List LoadedCost}
    (h : aggregateByTag (l ++ [c]) tagKey = .ok out) {a : LoadedCost} (ha : a ∈ out) :
    a.serviceCanonical = some n := by
  obtain ⟨_, b, hb, rfl⟩ := aggregateByTag_ok_iff.1 h
  obtain ⟨p, hp, rfl⟩ := List.mem_map.1 ha
  rw [List.foldlM_append] at hb
  obtain ⟨b₁, _, hlast⟩ := Loop.bind_ok.1 hb
  obtain ⟨b₂, hstep, hnil⟩ := Loop.foldlM_cons_ok.1 hlast
  cases hnil
  have hmem : p.1 ∈ canonicalKeys tagKey c b.sums.keys := by
    unfold canonicalKeys
    split
    · exact List.mem_map_of_mem hp
    · exact absurd hfb ‹_›
  have hcanon := get?_canonical_charge hstep p.1
  rw [hname, Option.elim_some, if_pos hmem] at hcanon
  exact hcanon

/-- The buckets of a run are those of its postings. -/
theorem mem_keys_run {b : LoadedBuckets}
    (h : charges.foldlM (addCharge tagKey) .empty = .ok b) (k : CostKey) :
    k ∈ b.sums.keys ↔ Posted (charges.flatMap (·.postings tagKey)) k := by
  rw [Dict.mem_keys_loopM (sums_of_addCharges h).1]
  simp [LoadedBuckets.empty, Dict.keys, Dict.empty, Posted]

theorem exists_bucket {out : List LoadedCost} (h : aggregateByTag charges tagKey = .ok out)
    {k : CostKey} (hk : Posted (charges.flatMap (·.postings tagKey)) k) :
    ∃ a ∈ out, outputKey a = k := by
  obtain ⟨_, b, hb, rfl⟩ := aggregateByTag_ok_iff.1 h
  obtain ⟨p, hp, rfl⟩ := List.mem_map.1 ((mem_keys_run hb k).2 hk)
  exact ⟨_, List.mem_map_of_mem hp, rfl⟩

theorem nodup_outputKey {out : List LoadedCost} (h : aggregateByTag charges tagKey = .ok out) :
    (out.map outputKey).Nodup := by
  obtain ⟨_, b, _, rfl⟩ := aggregateByTag_ok_iff.1 h
  rw [List.map_map]
  exact b.sums.nodup

theorem NamesKept.agree (h : NamesKept tagKey charges) {out : List LoadedCost}
    (hout : aggregateByTag charges tagKey = .ok out) : NamesAgree tagKey charges := by
  refine ⟨?_, ?_⟩
  · rintro k n n' hn hn'
    obtain ⟨c, hc, hname, p, hp, hpk⟩ := hn
    obtain ⟨a, ha, rfl⟩ := exists_bucket hout ⟨p, List.mem_flatMap.2 ⟨c, hc, hp⟩, hpk⟩
    have hown := (h.carried out hout a ha n).2 ⟨c, hc, hname, p, hp, hpk⟩
    have hown' := (h.carried out hout a ha n').2 hn'
    rw [hown] at hown'
    exact Option.some.inj hown'
  · intro c hc hfb n hname k hk
    obtain ⟨s, t, rfl⟩ := List.append_of_mem hc
    -- the same charges with `c` last
    have hperm : List.Perm (s ++ c :: t) ((s ++ t) ++ [c]) := by
      rw [List.append_assoc]
      exact (List.perm_append_singleton c t).symm.append_left s
    have hsame := h.anyOrder _ hperm
    rw [hout] at hsame
    cases hout' : aggregateByTag ((s ++ t) ++ [c]) tagKey with
    | error e => rw [hout'] at hsame; exact hsame.elim
    | ok out' =>
      rw [hout'] at hsame
      obtain ⟨a, ha, rfl⟩ := exists_bucket hout hk
      obtain ⟨a', ha', hview⟩ := List.mem_map.1
        (List.Perm.mem_iff hsame |>.1 (List.mem_map_of_mem (f := namedBucket) ha))
      have hcanon : a'.serviceCanonical = a.serviceCanonical := congrArg Prod.snd hview
      rw [← h.carried out hout a ha n, ← hcanon]
      exact canonical_of_fallback_last hfb hname hout' ha'

/-- Where the names agree, the buckets have the same names if they have the same amounts. -/
theorem NamesAgree.sameBuckets (h : NamesAgree tagKey charges)
    (hperm : List.Perm charges charges') {out out' : List LoadedCost}
    (hout : aggregateByTag charges tagKey = .ok out)
    (hout' : aggregateByTag charges' tagKey = .ok out')
    (hamounts : List.Perm (out.map costSummary) (out'.map costSummary)) :
    List.Perm (out.map namedBucket) (out'.map namedBucket) := by
  have hnodup : ∀ {charges : List DecimalCharge} {out : List LoadedCost},
      aggregateByTag charges tagKey = .ok out → (out.map namedBucket).Nodup := by
    intro charges out hout
    refine List.Nodup.of_map (fun v => v.1.1) ?_
    rw [List.map_map]
    exact nodup_outputKey hout
  have hname : ∀ a ∈ out, ∀ a' ∈ out', outputKey a = outputKey a' →
      a.serviceCanonical = a'.serviceCanonical := by
    intro a ha a' ha' hkey
    refine Option.ext fun n => ?_
    rw [h.serviceCanonical hout ha, (h.perm hperm).serviceCanonical hout' ha', hkey]
    exact namedIn_perm hperm _ n
  rw [List.perm_ext_iff_of_nodup (hnodup hout) (hnodup hout')]
  intro v
  constructor
  · intro hv
    obtain ⟨a, ha, rfl⟩ := List.mem_map.1 hv
    obtain ⟨a', ha', hs⟩ := List.mem_map.1 (hamounts.mem_iff.1 (List.mem_map_of_mem ha))
    have hkey : outputKey a = outputKey a' := (congrArg Prod.fst hs).symm
    refine List.mem_map.2 ⟨a', ha', ?_⟩
    rw [namedBucket, namedBucket, hs, hname a ha a' ha' hkey]
  · intro hv
    obtain ⟨a', ha', rfl⟩ := List.mem_map.1 hv
    obtain ⟨a, ha, hs⟩ := List.mem_map.1 (hamounts.mem_iff.2 (List.mem_map_of_mem ha'))
    have hkey : outputKey a = outputKey a' := congrArg Prod.fst hs
    refine List.mem_map.2 ⟨a, ha, ?_⟩
    rw [namedBucket, namedBucket, hs, hname a ha a' ha' hkey]

/-! ## The condition on the amounts -/

/-- The call raises when it is refused or an addition raises, and never else. -/
theorem raises_iff : (∃ e, aggregateByTag charges tagKey = .error e) ↔
    Refused tagKey charges ∨ Traps tagKey charges := by
  constructor
  · rintro ⟨e, he⟩
    by_contra hno
    simp only [Refused, not_or, not_exists, not_and] at hno
    obtain ⟨⟨htag, heven⟩, htraps⟩ := hno
    have hsums : ∀ k, ∃ o, bucketSums tagKey charges k = .ok o := by
      intro k
      cases hk : bucketSums tagKey charges k with
      | error e' => exact absurd ⟨k, e', hk⟩ htraps
      | ok o => exact ⟨o, rfl⟩
    obtain ⟨b, hb⟩ := exists_run heven hsums
    rw [aggregateByTag_ok_iff.2 ⟨htag, b, hb, rfl⟩] at he
    cases he
  · intro hraises
    cases hout : aggregateByTag charges tagKey with
    | error e => exact ⟨e, rfl⟩
    | ok out =>
      obtain ⟨htag, b, hb, _⟩ := aggregateByTag_ok_iff.1 hout
      rcases hraises with (hempty | ⟨c, hc, huneven⟩) | ⟨k, e, hk⟩
      · exact absurd hempty htag
      · exact absurd huneven ((sums_of_addCharges hb).2 c hc)
      · rw [bucketSums_run hb] at hk
        cases hk

theorem not_raises_of_ok {out : List LoadedCost} (h : aggregateByTag charges tagKey = .ok out) :
    ¬ Refused tagKey charges ∧ ¬ Traps tagKey charges := by
  rw [← not_or, ← raises_iff]
  rintro ⟨e, he⟩
  rw [h] at he
  cases he

/-- Two runs return the same amounts when every bucket adds up to the same. -/
theorem perm_costSummary_iff {out out' : List LoadedCost}
    (hout : aggregateByTag charges tagKey = .ok out)
    (hout' : aggregateByTag charges' tagKey = .ok out') :
    List.Perm (out.map costSummary) (out'.map costSummary) ↔
      ∀ k, bucketSums tagKey charges' k = bucketSums tagKey charges k := by
  obtain ⟨_, b, hb, rfl⟩ := aggregateByTag_ok_iff.1 hout
  obtain ⟨_, b', hb', rfl⟩ := aggregateByTag_ok_iff.1 hout'
  have hview : ∀ b : LoadedBuckets,
      (b.sums.items.map (tagCost tagKey b)).map costSummary = b.sums.items := by
    intro b
    rw [List.map_map]
    exact List.map_id _
  rw [hview, hview, Dict.perm_items_iff]
  refine forall_congr' fun k => ?_
  rw [bucketSums_run hb, bucketSums_run hb', Except.ok.injEq, eq_comm]

theorem AmountsKept.sumsAgree (h : AmountsKept tagKey charges)
    (hrefused : ¬ Refused tagKey charges) : SumsAgree tagKey charges := by
  intro charges' hperm
  have hrefused' : ¬ Refused tagKey charges' := fun hr => hrefused ((refused_perm hperm).2 hr)
  have hsame := h charges' hperm
  cases hout : aggregateByTag charges tagKey with
  | error e =>
    cases hout' : aggregateByTag charges' tagKey with
    | error e' =>
      exact .inl ⟨(raises_iff.1 ⟨e, hout⟩).resolve_left hrefused,
        (raises_iff.1 ⟨e', hout'⟩).resolve_left hrefused'⟩
    | ok out' => rw [hout, hout'] at hsame; exact hsame.elim
  | ok out =>
    cases hout' : aggregateByTag charges' tagKey with
    | error e' => rw [hout, hout'] at hsame; exact hsame.elim
    | ok out' =>
      rw [hout, hout'] at hsame
      exact .inr ⟨(not_raises_of_ok hout).2, (perm_costSummary_iff hout hout').1 hsame⟩

theorem amountsKept_of_refused (h : Refused tagKey charges) : AmountsKept tagKey charges := by
  intro charges' hperm
  obtain ⟨e, he⟩ := raises_iff.2 (.inl h)
  obtain ⟨e', he'⟩ := raises_iff.2 (.inl ((refused_perm hperm).1 h))
  rw [he, he']
  trivial

theorem SumsAgree.amountsKept (h : SumsAgree tagKey charges) : AmountsKept tagKey charges := by
  intro charges' hperm
  rcases h charges' hperm with ⟨htraps, htraps'⟩ | ⟨htraps, hsame⟩
  · obtain ⟨e, he⟩ := raises_iff.2 (.inr htraps)
    obtain ⟨e', he'⟩ := raises_iff.2 (.inr htraps')
    rw [he, he']
    trivial
  · have htraps' : ¬ Traps tagKey charges' := by
      rintro ⟨k, e, he⟩
      exact htraps ⟨k, e, (hsame k).symm.trans he⟩
    cases hout : aggregateByTag charges tagKey with
    | error e =>
      have hrefused := (raises_iff.1 ⟨e, hout⟩).resolve_right htraps
      obtain ⟨e', he'⟩ := raises_iff.2 (.inl ((refused_perm hperm).1 hrefused))
      rw [he']
      trivial
    | ok out =>
      cases hout' : aggregateByTag charges' tagKey with
      | error e' =>
        have hrefused := (raises_iff.1 ⟨e', hout'⟩).resolve_right htraps'
        exact absurd ((refused_perm hperm).2 hrefused) (not_raises_of_ok hout).1
      | ok out' => exact (perm_costSummary_iff hout hout').2 hsame

theorem amountsKept_iff_sums :
    AmountsKept tagKey charges ↔ Refused tagKey charges ∨ SumsAgree tagKey charges := by
  constructor
  · intro h
    by_cases hrefused : Refused tagKey charges
    · exact .inl hrefused
    · exact .inr (h.sumsAgree hrefused)
  · rintro (hrefused | hsums)
    · exact amountsKept_of_refused hrefused
    · exact hsums.amountsKept

theorem ExactSums.not_traps (h : ExactSums tagKey charges) : ¬ Traps tagKey charges := by
  rintro ⟨k, e, he⟩
  rw [h.bucketSums_eq] at he
  cases he

theorem ExactSums.sumsAgree (h : ExactSums tagKey charges) : SumsAgree tagKey charges := by
  intro charges' hperm
  refine .inr ⟨h.not_traps, fun k => ?_⟩
  have hlength := (entries_perm tagKey hperm k).length_eq
  simp only [h.bucketSums_eq, (h.perm hperm).bucketSums_eq, exactTotal_perm hperm,
    ← List.length_eq_zero_iff, hlength]

end

/-! ## Both conditions -/

theorem SameBuckets.amounts {x y : Except PyError (List LoadedCost)}
    (h : SameBuckets namedBucket x y) : SameBuckets costSummary x y := by
  cases x with
  | error e =>
    cases y with
    | error e' => trivial
    | ok out' => exact h.elim
  | ok out =>
    cases y with
    | error e' => exact h.elim
    | ok out' =>
      have hnamed : List.Perm (out.map namedBucket) (out'.map namedBucket) := h
      have hfst := hnamed.map Prod.fst
      rw [List.map_map, List.map_map] at hfst
      exact hfst

section

variable {tagKey : String} {charges : List DecimalCharge}

/-- A call that raises in one order raises in all of them. -/
theorem AmountsKept.namesKept_of_error (h : AmountsKept tagKey charges) {e : PyError}
    (he : aggregateByTag charges tagKey = .error e) : NamesKept tagKey charges := by
  refine ⟨fun out hok => ?_, fun charges' hperm => ?_⟩
  · rw [he] at hok
    cases hok
  · have hsame := h charges' hperm
    rw [he] at hsame ⊢
    cases hout' : aggregateByTag charges' tagKey with
    | error e' => trivial
    | ok out' => rw [hout'] at hsame; exact hsame.elim

theorem AmountsKept.namesKept_of_agree (h : AmountsKept tagKey charges)
    (hagree : NamesAgree tagKey charges) {out : List LoadedCost}
    (hout : aggregateByTag charges tagKey = .ok out) : NamesKept tagKey charges := by
  refine ⟨fun out' hok a ha n => hagree.serviceCanonical hok ha n, fun charges' hperm => ?_⟩
  have hsame := h charges' hperm
  rw [hout] at hsame ⊢
  cases hout' : aggregateByTag charges' tagKey with
  | error e' => rw [hout'] at hsame; exact hsame.elim
  | ok out' =>
    rw [hout'] at hsame
    exact hagree.sameBuckets hperm hout hout' hsame

theorem namesKept_iff_amounts : NamesKept tagKey charges ↔ AmountsKept tagKey charges ∧
    ((∃ e, aggregateByTag charges tagKey = .error e) ∨ NamesAgree tagKey charges) := by
  constructor
  · intro h
    refine ⟨fun charges' hperm => (h.anyOrder charges' hperm).amounts, ?_⟩
    cases hout : aggregateByTag charges tagKey with
    | error e => exact .inl ⟨e, rfl⟩
    | ok out => exact .inr (h.agree hout)
  · rintro ⟨hamounts, hnames⟩
    cases hout : aggregateByTag charges tagKey with
    | error e => exact hamounts.namesKept_of_error hout
    | ok out =>
      rcases hnames with ⟨e, he⟩ | hagree
      · rw [hout] at he
        cases he
      · exact hamounts.namesKept_of_agree hagree hout

end

/-- The names and amounts are kept exactly when the call is refused, or the buckets add up to the
same in every order and the names agree. Amounts that fit in 28 digits always do, and there the
names decide. -/
theorem namesKept_iff (tagKey : String) (charges : List DecimalCharge) :
    (NamesKept tagKey charges ↔ Refused tagKey charges ∨
      (SumsAgree tagKey charges ∧ (Traps tagKey charges ∨ NamesAgree tagKey charges))) ∧
    (ExactSums tagKey charges →
      (NamesKept tagKey charges ↔ Refused tagKey charges ∨ NamesAgree tagKey charges)) := by
  have hgeneral : NamesKept tagKey charges ↔ Refused tagKey charges ∨
      (SumsAgree tagKey charges ∧ (Traps tagKey charges ∨ NamesAgree tagKey charges)) := by
    rw [namesKept_iff_amounts, amountsKept_iff_sums, raises_iff, or_assoc, ← or_and_left]
  refine ⟨hgeneral, fun hexact => ?_⟩
  rw [hgeneral]
  simp only [hexact.sumsAgree, hexact.not_traps, true_and, false_or]

/-- A charge of Amazon RDS in January, without per-row costs. -/
def sampleCharge (tags : List TagDict) (cost : Rat) : DecimalCharge where
  accountId := "0"
  accountName := ""
  service := "Amazon RDS"
  region := none
  pricingCategory := none
  periodStart := .ofYmd 2026 1 1
  periodEnd := .ofYmd 2026 1 31
  billedCost := .finite cost
  amortizedCost := .finite cost
  resourceId := none
  subAccountId := none
  tags := tags
  billingCurrency := "EUR"
  perRowCosts := []
  serviceCanonical := none

def team (value : String) : TagDict := Dict.empty.set "team" value

/-- Two rows of one database service, counted, and one with its cost. -/
def namedCharges : List DecimalCharge :=
  [{ sampleCharge [team "web", team "api"] 97 with serviceCanonical := some "managed_postgres" },
    { sampleCharge [team "web"] 3 with
      perRowCosts := [(.finite 3, .finite 3)], serviceCanonical := some "managed_postgres" }]

theorem namedCharges_exact : ExactSums "team" namedCharges where
  parts := by decide +kernel
  billed := fun k => by
    have hall : Decimal.FitsDigits 1
        ((namedCharges.flatMap (·.postings "team")).map (·.billedAmount)) := by decide +kernel
    exact ⟨1, hall.sublist (List.filter_sublist.map _)⟩
  amortized := fun k => by
    have hall : Decimal.FitsDigits 1
        ((namedCharges.flatMap (·.postings "team")).map (·.amortizedAmount)) := by decide +kernel
    exact ⟨1, hall.sublist (List.filter_sublist.map _)⟩

/-- 48.50 EUR a value and 3 EUR for the web row are exact, and all of one name. -/
theorem named_charges_kept : ExactSums "team" namedCharges ∧ NamesKept "team" namedCharges := by
  have hname : ∀ c ∈ namedCharges, c.serviceCanonical = some "managed_postgres" := by decide
  have hagree : NamesAgree "team" namedCharges := by
    refine ⟨?_, ?_⟩
    · rintro k n n' ⟨c, hc, hn, _⟩ ⟨c', hc', hn', _⟩
      rw [hname c hc] at hn
      rw [hname c' hc'] at hn'
      exact Option.some.inj (hn.symm.trans hn')
    · rintro c hc _ n hn k ⟨p, hp, hk⟩
      obtain ⟨c', hc', hp⟩ := List.mem_flatMap.1 hp
      exact ⟨c', hc', by rw [hname c' hc', ← hname c hc, hn], p, hp, hk⟩
  exact ⟨namedCharges_exact, ((namesKept_iff "team" namedCharges).2 namedCharges_exact).2
    (.inr hagree)⟩

/-! ## A charge of another service -/

/-- A bucket under a native name, then a managed database without per-row costs. -/
def staleCharges : List DecimalCharge :=
  [{ sampleCharge [team "web"] 3 with perRowCosts := [(.finite 3, .finite 3)] },
    { sampleCharge [team "web"] 97 with
      service := "Azure Database", serviceCanonical := some "managed_postgres" }]

/-- One EUR for `rows` rows, the first of them of `web`. -/
def shared (rows : Nat) : DecimalCharge :=
  sampleCharge (team "web" :: List.replicate (rows - 1) (team "api")) 1

theorem namesAgree_of_unnamed (tagKey : String) {charges : List DecimalCharge}
    (h : ∀ c ∈ charges, c.serviceCanonical = none) : NamesAgree tagKey charges := by
  refine ⟨?_, ?_⟩
  · rintro k n n' ⟨c, hc, hn, _⟩
    rw [h c hc] at hn
    cases hn
  · intro c hc _ n hn
    rw [h c hc] at hn
    cases hn

/-- The bucket of Amazon RDS is named after the other service. -/
theorem not_namesKept_staleCharges : ¬ NamesKept "team" staleCharges := by
  intro h
  have hrun : (aggregateByTag staleCharges "team").toOption.map
      (fun out => out.map fun a => (a.service, a.serviceCanonical)) =
        some [("Amazon RDS", some "managed_postgres"),
          ("Azure Database", some "managed_postgres")] := by
    decide +kernel
  cases hout : aggregateByTag staleCharges "team" with
  | error e => rw [hout] at hrun; cases hrun
  | ok out =>
    rw [hout] at hrun
    simp only [Except.toOption, Option.map_some, Option.some.injEq] at hrun
    have hmem : ("Amazon RDS", some "managed_postgres") ∈
        out.map fun a => (a.service, a.serviceCanonical) := by
      rw [hrun]
      exact List.mem_cons_self
    obtain ⟨a, ha, hfields⟩ := List.mem_map.1 hmem
    obtain ⟨hservice, hcanon⟩ := Prod.mk.inj hfields
    obtain ⟨c, hc, hname, p, hp, hk⟩ := (h.carried out hout a ha _).1 hcanon
    have hps : p.key.service = "Amazon RDS" := by rw [hk]; exact hservice
    have hall : ∀ c ∈ staleCharges, c.serviceCanonical = some "managed_postgres" →
        ∀ p ∈ c.postings "team", p.key.service = "Azure Database" := by
      decide +kernel
    rw [hall c hc hname p hp] at hps
    exact absurd hps (by decide)

/-- Thirds and sevenths add up to another last digit in another order. -/
theorem not_namesKept_shared : ¬ NamesKept "team" [shared 3, shared 7, shared 3] := by
  intro h
  have hperm : List.Perm [shared 3, shared 7, shared 3] [shared 3, shared 3, shared 7] :=
    .cons _ (.swap _ _ _)
  have hsame := h.anyOrder _ hperm
  have hrun : (aggregateByTag [shared 3, shared 7, shared 3] "team").toOption.bind (fun out =>
      (aggregateByTag [shared 3, shared 3, shared 7] "team").toOption.map fun out' =>
        decide (List.Perm (out.map namedBucket) (out'.map namedBucket))) = some false := by
    decide +kernel
  cases hout : aggregateByTag [shared 3, shared 7, shared 3] "team" with
  | error e => rw [hout] at hrun; cases hrun
  | ok out =>
    cases hout' : aggregateByTag [shared 3, shared 3, shared 7] "team" with
    | error e => rw [hout, hout'] at hrun; cases hrun
    | ok out' =>
      rw [hout, hout'] at hsame hrun
      exact of_decide_eq_false (Option.some.inj hrun) hsame

/-- A charge of another service names a bucket; and without any names, the amounts of a bucket
depend on the order. -/
theorem name_leaks : ¬ NamesKept "team" staleCharges ∧
    NamesAgree "team" [shared 3, shared 7, shared 3] ∧
      ¬ NamesKept "team" [shared 3, shared 7, shared 3] :=
  ⟨not_namesKept_staleCharges, namesAgree_of_unnamed "team" (by decide), not_namesKept_shared⟩

end Loader

end Focus

end Constat
