import Constat.ChargebackAcks
import Constat.EventLog
import Constat.Focus.Titles

/-!
# ChargebackEvents

The events of two chargeback runs, one after the other. An insight is identified in the log by the
digest of its title alone, and a title says little of a bucket: the service and the account as they
are displayed, a label in place of the period, the drift rounded to cents. Insights of different
buckets with one title count as one.

* `Reported`    — an insight that a run emits, with the bucket it is about.
* `AmountsKept` — the events of the second run account for every insight that has come or gone, and
                  fingerprints tell the buckets apart.
* `amountsKept_iff` — this is so iff no two different buckets are printed alike.
-/

namespace Constat

open Runner

namespace Chargeback

/-! ## What the runs report -/

/-- A bucket is an entry of the dictionary that the charges of an account are grouped by. -/
inductive BucketKey where
  | period (key : Focus.PeriodKey)
  | tag (tagKey : String) (key : Focus.CostKey)
deriving DecidableEq

structure Reported where
  account : Uuid
  key : BucketKey
  label : String
  agg : Focus.AggregatedCost

namespace Reported

def bucket (x : Reported) : Uuid × BucketKey := (x.account, x.key)

def title (x : Reported) : String := Focus.insightTitle x.label x.agg

def printed (x : Reported) : Focus.Printed := Focus.printed x.label x.agg

def print (x : Reported) : String := InsightEvents.fingerprintOf "chargeback" none x.title

def insight (fp : Arith) (x : Reported) : Insight :=
  Focus.buildInsight fp x.label x.account x.agg

/-- The fingerprint and the monthly amount. -/
def amount (fp : Arith) (x : Reported) : String × Option PyFloat :=
  (x.print, some (fp.fit x.agg.drift))

end Reported

def keyedAggregates (tagKey : Option String) (charges : List FocusCharge) :
    List (BucketKey × Focus.AggregatedCost) :=
  match Focus.truthy tagKey with
  | some tagKey =>
    match Focus.aggregateByTag charges tagKey with
    | .error _ => []
    | .ok _ =>
      let b := charges.foldl (Focus.addCharge tagKey) .empty
      b.sums.items.map fun p => (.tag tagKey p.1, Focus.bucketCost tagKey b p)
  | none => (Focus.periodRows charges).items.map fun p => (.period p.1, Focus.periodCost p)

def chargesOf (env : Env) (t : Store) (account : Uuid) : List FocusCharge :=
  Focus.readCharges env.order t account (((accountNames t).get? (Uuid.text account)).getD "")

/-- The insights a run emits, in their order. -/
def reported (env : Env) (t : Store) : List Reported :=
  (accountIds env t).flatMap fun account =>
    (keyedAggregates env.tagKey (chargesOf env t account)).map fun p =>
      ⟨account, p.1, env.periodLabel, p.2⟩

theorem snd_keyedAggregates (env : Env) (t : Store) (account : Uuid) :
    (keyedAggregates env.tagKey (chargesOf env t account)).map Prod.snd =
      aggregatesOf env t account := by
  have hcharges : Focus.readCharges env.order t account
      (((accountNames t).get? (Uuid.text account)).getD "") = chargesOf env t account := rfl
  rw [keyedAggregates, aggregatesOf, aggregate, hcharges]
  cases htag : Focus.truthy env.tagKey with
  | none =>
    simp only [List.map_map]
    rfl
  | some tagKey =>
    cases hagg : Focus.aggregateByTag (chargesOf env t account) tagKey with
    | error e => simp [hagg]
    | ok aggs =>
      simp only [hagg, List.map_map]
      rw [Focus.eq_of_aggregateByTag hagg]
      rfl

theorem emittedAll_eq (fp : Arith) (env : Env) (t : Store) :
    emittedAll fp env t = (reported env t).map (Reported.insight fp) := by
  rw [emittedAll, reported, List.map_flatMap]
  refine List.flatMap_congr fun account _ => ?_
  rw [emittedFor_eq, ← snd_keyedAggregates, List.map_map, List.map_map]
  rfl

theorem nodup_keys (tagKey : Option String) (charges : List FocusCharge) :
    ((keyedAggregates tagKey charges).map Prod.fst).Nodup := by
  rw [keyedAggregates]
  split
  · rename_i tagKey _
    split
    · exact List.nodup_nil
    · rw [List.map_map]
      have hkeys := (charges.foldl (Focus.addCharge tagKey) .empty).sums.nodup
      have hmap := hkeys.map (f := BucketKey.tag tagKey) fun a b h => by injection h
      rwa [List.map_map] at hmap
  · rw [List.map_map]
    have hmap := (Focus.periodRows charges).nodup.map (f := BucketKey.period)
      fun a b h => by injection h
    rwa [List.map_map] at hmap

/-- A bucket is reported once. -/
theorem nodup_buckets (env : Env) (t : Store) :
    ((reported env t).map Reported.bucket).Nodup := by
  have haccounts : (accountIds env t).Nodup :=
    (env.accounts_perm _).nodup_iff.2 (List.nodup_dedup _)
  rw [reported, List.map_flatMap, List.nodup_flatMap]
  refine ⟨fun account _ => ?_, haccounts.imp fun {a b} hne => ?_⟩
  · rw [List.map_map]
    have hmap := (nodup_keys env.tagKey (chargesOf env t account)).map (f := Prod.mk account)
      fun k k' h => (Prod.mk.inj h).2
    rwa [List.map_map] at hmap
  · intro k hk hk'
    obtain ⟨x, hx, rfl⟩ := List.mem_map.1 hk
    obtain ⟨y, hy, hsame⟩ := List.mem_map.1 hk'
    obtain ⟨p, _, rfl⟩ := List.mem_map.1 hx
    obtain ⟨q, _, rfl⟩ := List.mem_map.1 hy
    exact hne (Prod.mk.inj hsame).1.symm

/-! ## The stored insights -/

/-- The fingerprint of a stored insight and its monthly amount. -/
def rowAmount (fp : Arith) (r : InsightRow) : String × Option PyFloat :=
  (InsightEvents.fingerprint r, InsightEvents.monthlyCost fp "chargeback" r.payload)

/-- The stored insights are those of the list, in its order. -/
def Holds (fp : Arith) (xs : List Reported) (t : Store) : Prop :=
  (Insights.ofRule t "chargeback").map (rowAmount fp) = xs.map (Reported.amount fp)

theorem holds_runStep (fp : Arith) (env : Env) (t : Store) :
    Holds fp (reported env t) (runStep fp env t) := by
  rw [Holds, ofRule_runStep, emittedAll_eq, List.map_map]
  have hrow : ∀ r, rowAmount fp (ackedRow t r) = rowAmount fp r :=
    ackedRow_eq (rowAmount fp) (fun _ _ => rfl) t
  have hmap := map_insightRows (fun r => rowAmount fp (ackedRow t r))
    (fun i => rowAmount fp (insightRow 0 i env.now)) env.now
    (fun id i => (hrow _).trans rfl) t.insights.next ((reported env t).map (Reported.insight fp))
  rw [List.map_map] at hmap
  exact hmap

/-- A row without its acknowledgement. -/
def unacked (r : InsightRow) : InsightRow := { r with ackStatus := none, ackAt := none, ackBy := none }

theorem Holds.of_unacked {fp : Arith} {xs : List Reported} {t t' : Store} (h : Holds fp xs t)
    (hsame : (Insights.ofRule t' "chargeback").map unacked =
      (Insights.ofRule t "chargeback").map unacked) : Holds fp xs t' := by
  have hamount : ∀ u : Store, (Insights.ofRule u "chargeback").map (rowAmount fp) =
      ((Insights.ofRule u "chargeback").map unacked).map (rowAmount fp) := by
    intro u
    rw [List.map_map]
    rfl
  rw [Holds, hamount, hsame, ← hamount]
  exact h

theorem Holds.prints {fp : Arith} {xs : List Reported} {t : Store} (h : Holds fp xs t) :
    (Insights.ofRule t "chargeback").map InsightEvents.fingerprint = xs.map Reported.print := by
  have hfst := congrArg (List.map Prod.fst) h
  rw [List.map_map, List.map_map] at hfst
  exact hfst

theorem Holds.exists_row_iff {fp : Arith} {xs : List Reported} {t : Store} (h : Holds fp xs t)
    (print : String) : (∃ r ∈ Insights.ofRule t "chargeback", InsightEvents.fingerprint r = print) ↔
      ∃ x ∈ xs, x.print = print := by
  have hmem : print ∈ (Insights.ofRule t "chargeback").map InsightEvents.fingerprint ↔
      print ∈ xs.map Reported.print := by rw [h.prints]
  rwa [List.mem_map, List.mem_map] at hmem

/-! ## The difference -/

/-- What of `xs` has no counterpart in `ys`: the same bucket under the same title. -/
def without (ys xs : List Reported) : List Reported :=
  xs.filter fun x => ∀ y ∈ ys, ¬ (y.bucket = x.bucket ∧ y.title = x.title)

/-- What of `xs` has a fingerprint that `ys` has not. -/
def unprinted (ys xs : List Reported) : List Reported :=
  xs.filter fun x => ∀ y ∈ ys, y.print ≠ x.print

def itemAmount (fp : Arith) (p : String × InsightRow) : String × Option PyFloat :=
  (p.1, InsightEvents.monthlyCost fp "chargeback" p.2.payload)

/-- The difference of two snapshots, when the fingerprints of the first are different. -/
theorem absent_amounts {fp : Arith} {xs ys : List Reported} {t t' : Store} (h : Holds fp xs t)
    (h' : Holds fp ys t') (hnodup : (xs.map Reported.print).Nodup) :
    (InsightEvents.absentFrom (InsightEvents.snapshotRule t "chargeback")
      (InsightEvents.snapshotRule t' "chargeback")).map (itemAmount fp) =
      (unprinted ys xs).map (Reported.amount fp) := by
  have hitems : (InsightEvents.snapshotRule t "chargeback").items =
      (Insights.ofRule t "chargeback").map fun r => (InsightEvents.fingerprint r, r) :=
    Dict.items_foldl_set InsightEvents.fingerprint id _ .empty (h.prints ▸ hnodup)
  have hgone : ∀ print, ((InsightEvents.snapshotRule t' "chargeback").get? print).isNone =
      decide (∀ y ∈ ys, y.print ≠ print) := by
    intro print
    rw [← Option.not_isSome, Bool.eq_iff_iff, Bool.not_eq_true', ← Bool.not_eq_true,
      snapshotRule_isSome, h'.exists_row_iff, decide_eq_true_eq]
    simp
  have hrows : ((Insights.ofRule t "chargeback").map (rowAmount fp)).filter
      (fun p => decide (∀ y ∈ ys, y.print ≠ p.1)) =
      (xs.map (Reported.amount fp)).filter fun p => decide (∀ y ∈ ys, y.print ≠ p.1) :=
    congrArg _ h
  rw [List.filter_map, List.filter_map] at hrows
  rw [InsightEvents.absentFrom, hitems, List.filter_map, List.map_map]
  simp only [Function.comp_def, hgone] at hrows ⊢
  exact hrows

/-! ## The events of a run -/

/-- The fingerprints and amounts of the events of one kind. -/
def amounts (kind : EventKind) (es : List InsightEventRow) : List (String × Option PyFloat) :=
  (es.filter fun e => e.event = kind).map fun e => (e.fingerprint, e.monthlyUsd)

theorem amounts_recorded {fp : Arith} {kind : EventKind} {ps : List (String × InsightRow)}
    {new : List InsightEventRow} (h : List.Forall₂ (Recorded fp "chargeback" kind) ps new)
    (kind' : EventKind) :
    amounts kind' new = if kind = kind' then ps.map (itemAmount fp) else [] := by
  induction h with
  | nil => simp [amounts]
  | @cons p e ps new hr _ ih =>
    rw [amounts] at ih
    by_cases hkind : kind = kind'
    · rw [if_pos hkind] at ih ⊢
      rw [amounts, List.filter_cons_of_pos (by rw [hr.event]; exact decide_eq_true hkind),
        List.map_cons, ih, hr.fingerprint, hr.monthlyUsd]
      rfl
    · rw [if_neg hkind] at ih ⊢
      rw [amounts, List.filter_cons_of_neg (by rw [hr.event]; simpa using hkind), ih]

theorem amounts_of_diffed {fp : Arith} {t t' : Store} (h : EventLog.Diffed fp "chargeback" t t') :
    amounts .appeared (newEvents t t') =
        (InsightEvents.absentFrom (InsightEvents.snapshotRule t' "chargeback")
          (InsightEvents.snapshotRule t "chargeback")).map (itemAmount fp) ∧
      amounts .resolved (newEvents t t') =
        (InsightEvents.absentFrom (InsightEvents.snapshotRule t "chargeback")
          (InsightEvents.snapshotRule t' "chargeback")).map (itemAmount fp) := by
  obtain ⟨new₁, new₂, hrows, hnew₁, hnew₂⟩ := h.log
  have hnew : newEvents t t' = new₁ ++ new₂ := by rw [newEvents, hrows, List.drop_left]
  have happend : ∀ kind, amounts kind (new₁ ++ new₂) = amounts kind new₁ ++ amounts kind new₂ := by
    intro kind
    rw [amounts, List.filter_append, List.map_append]
    rfl
  simp only [hnew, happend, amounts_recorded hnew₁, amounts_recorded hnew₂]
  simp

/-- The events between `t` and `t'` account for each insight of `ys` that has come and each of `xs`
that has gone, and no two buckets share a fingerprint. -/
structure AmountsKept (fp : Arith) (xs ys : List Reported) (t t' : Store) : Prop where
  appeared : List.Perm (amounts .appeared (newEvents t t'))
    ((without xs ys).map (Reported.amount fp))
  resolved : List.Perm (amounts .resolved (newEvents t t'))
    ((without ys xs).map (Reported.amount fp))
  apart : ∀ x ∈ xs ++ ys, ∀ y ∈ xs ++ ys, x.bucket ≠ y.bucket → x.print ≠ y.print

/-- No two buckets are printed alike, and SHA-256 tells the titles apart. -/
structure ToldApart (zs : List Reported) : Prop where
  alike : ∀ x ∈ zs, ∀ y ∈ zs, x.bucket ≠ y.bucket → ¬ x.printed.Alike y.printed
  digests : ∀ x ∈ zs, ∀ y ∈ zs, x.title ≠ y.title → x.print ≠ y.print

theorem print_of_title {x y : Reported} (h : x.title = y.title) : x.print = y.print := by
  rw [Reported.print, Reported.print, h]

theorem ToldApart.same {zs : List Reported} (h : ToldApart zs) {x y : Reported} (hx : x ∈ zs)
    (hy : y ∈ zs) (hprint : x.print = y.print) : x.bucket = y.bucket ∧ x.title = y.title := by
  have htitle : x.title = y.title := by
    by_contra hne
    exact h.digests x hx y hy hne hprint
  refine ⟨?_, htitle⟩
  by_contra hne
  exact h.alike x hx y hy hne (Focus.alike_iff.2 htitle)

theorem ToldApart.nodup_prints {zs xs : List Reported} (h : ToldApart zs) (hsub : ∀ x ∈ xs, x ∈ zs)
    (hbuckets : (xs.map Reported.bucket).Nodup) : (xs.map Reported.print).Nodup := by
  rw [List.Nodup, List.pairwise_map] at hbuckets ⊢
  exact hbuckets.imp_of_mem fun hx hy hne hprint =>
    hne (h.same (hsub _ hx) (hsub _ hy) hprint).1

theorem ToldApart.without_eq {zs xs ys : List Reported} (h : ToldApart zs)
    (hxs : ∀ x ∈ xs, x ∈ zs) (hys : ∀ y ∈ ys, y ∈ zs) : without ys xs = unprinted ys xs := by
  refine List.filter_congr fun x hx => decide_eq_decide.2 (forall₂_congr fun y hy => ?_)
  rw [not_iff_not]
  constructor
  · exact fun hsame => print_of_title hsame.2
  · exact fun hprint => h.same (hys y hy) (hxs x hx) hprint

/-- An insight that has come has a new fingerprint. -/
theorem AmountsKept.unseen {fp : Arith} {xs ys : List Reported} {t t' : Store}
    (h : AmountsKept fp xs ys t t') (hdiff : EventLog.Diffed fp "chargeback" t t')
    (hxs : Holds fp xs t) {y : Reported} (hy : y ∈ without xs ys) : ∀ x ∈ xs, x.print ≠ y.print := by
  intro x hx hprint
  have hmem : y.amount fp ∈ amounts .appeared (newEvents t t') :=
    h.appeared.mem_iff.2 (List.mem_map_of_mem hy)
  rw [(amounts_of_diffed hdiff).1] at hmem
  obtain ⟨p, hp, heq⟩ := List.mem_map.1 hmem
  obtain ⟨_, _, hgone⟩ := mem_absentFrom hp
  obtain ⟨r, hr, hrow⟩ := (hxs.exists_row_iff p.1).2 ⟨x, hx, hprint.trans (Prod.mk.inj heq).1.symm⟩
  exact hgone r hr hrow

theorem kept_iff_toldApart {fp : Arith} {xs ys : List Reported} {t t' : Store}
    (hdiff : EventLog.Diffed fp "chargeback" t t') (hxs : Holds fp xs t) (hys : Holds fp ys t')
    (hnodup : (xs.map Reported.bucket).Nodup) (hnodup' : (ys.map Reported.bucket).Nodup) :
    AmountsKept fp xs ys t t' ↔ ToldApart (xs ++ ys) := by
  constructor
  · intro h
    -- a title that changes within one bucket has a digest of its own: its events are there
    have hcross : ∀ x ∈ xs, ∀ y ∈ ys, x.title ≠ y.title → x.print ≠ y.print := by
      intro x hx y hy htitle
      by_cases hbucket : x.bucket = y.bucket
      · refine h.unseen hdiff hxs (List.mem_filter.2 ⟨hy, decide_eq_true ?_⟩) x hx
        rintro z hz ⟨hzb, hzt⟩
        have hzx := List.inj_on_of_nodup_map hnodup hz hx (hzb.trans hbucket.symm)
        exact htitle (hzx ▸ hzt)
      · exact h.apart x (List.mem_append_left _ hx) y (List.mem_append_right _ hy) hbucket
    refine ⟨fun x hx y hy hne halike => ?_, fun x hx y hy htitle hprint => ?_⟩
    · exact h.apart x hx y hy hne (print_of_title (Focus.alike_iff.1 halike))
    · have hbucket : x.bucket = y.bucket := by
        by_contra hne
        exact h.apart x hx y hy hne hprint
      rcases List.mem_append.1 hx with hx | hx <;> rcases List.mem_append.1 hy with hy | hy
      · exact htitle (congrArg _ (List.inj_on_of_nodup_map hnodup hx hy hbucket))
      · exact hcross x hx y hy htitle hprint
      · exact hcross y hy x hx (Ne.symm htitle) hprint.symm
      · exact htitle (congrArg _ (List.inj_on_of_nodup_map hnodup' hx hy hbucket))
  · intro h
    have hleft : ∀ x ∈ xs, x ∈ xs ++ ys := fun x => List.mem_append_left ys
    have hright : ∀ y ∈ ys, y ∈ xs ++ ys := fun y => List.mem_append_right xs
    obtain ⟨happeared, hresolved⟩ := amounts_of_diffed hdiff
    refine ⟨?_, ?_, fun x hx y hy hne hprint => hne (h.same hx hy hprint).1⟩
    · rw [happeared, absent_amounts hys hxs (h.nodup_prints hright hnodup'),
        h.without_eq hright hleft]
    · rw [hresolved, absent_amounts hxs hys (h.nodup_prints hleft hnodup),
        h.without_eq hleft hright]

/-- After a run, whatever changes but the insights of the rule, a second run keeps the amounts
precisely when no two different buckets of the two runs are printed alike. -/
theorem amountsKept_iff {fp : Arith} {env env' : Env} {t₀ t : Store}
    (hbetween : (Insights.ofRule t "chargeback").map unacked =
      (Insights.ofRule (runStep fp env t₀) "chargeback").map unacked) :
    AmountsKept fp (reported env t₀) (reported env' t) t (runStep fp env' t) ↔
      ToldApart (reported env t₀ ++ reported env' t) :=
  kept_iff_toldApart (EventLog.diffed_runChargeback fp env' (.begin t))
    ((holds_runStep fp env t₀).of_unacked hbetween) (holds_runStep fp env' t)
    (nodup_buckets env t₀) (nodup_buckets env' t)

/-! ### Two months -/

instance (zs : List Reported) : Decidable (ToldApart zs) :=
  decidable_of_iff ((∀ x ∈ zs, ∀ y ∈ zs, x.bucket ≠ y.bucket → ¬ x.printed.Alike y.printed) ∧
      ∀ x ∈ zs, ∀ y ∈ zs, x.title ≠ y.title → x.print ≠ y.print)
    ⟨fun ⟨halike, hdigests⟩ => ⟨halike, hdigests⟩, fun ⟨halike, hdigests⟩ => ⟨halike, hdigests⟩⟩

/-- January and February drift by one amount: under one label their insights have one title, and
the run that inserts the two logs one event. -/
theorem two_months_one_event :
    (Insights.ofRule (billed [1, 2]) "chargeback").map unacked =
      (Insights.ofRule (runStep .double allTime .empty) "chargeback").map unacked ∧
    ¬ AmountsKept .double (reported allTime .empty) (reported allTime (billed [1, 2]))
      (billed [1, 2]) (runStep .double allTime (billed [1, 2])) := by
  refine ⟨by decide +kernel, fun h => ?_⟩
  have hlength : (amounts .appeared (newEvents (billed [1, 2])
      (runStep .double allTime (billed [1, 2])))).length = 1 ∧
      (without (reported allTime .empty) (reported allTime (billed [1, 2]))).length = 2 := by
    decide +kernel
  have hsame := h.appeared.length_eq
  rw [List.length_map, hlength.1, hlength.2] at hsame
  omega

def byPeriod : Env := { allTime with periodLabel := "" }

/-- February's bill comes in after the run over January. -/
def february : Store :=
  { billed [1, 2] with insights := (runStep .double byPeriod (billed [1])).insights }

theorem february_accounted :
    AmountsKept .double (reported byPeriod (billed [1])) (reported byPeriod february) february
      (runStep .double byPeriod february) := by
  have hbetween : (Insights.ofRule february "chargeback").map unacked =
      (Insights.ofRule (runStep .double byPeriod (billed [1])) "chargeback").map unacked := rfl
  exact (amountsKept_iff hbetween).2 (by decide +kernel)

end Chargeback

end Constat
