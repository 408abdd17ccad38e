import Constat.History

/-!
# Lifecycle

What the event log says a rule run closed, against what the run found. `diff_and_record_events`
only compares the fingerprints stored before and after: an insight that is gone counts as resolved,
whatever made it go.

* `RecoveredOnly` — a resolved event is about a resource that is retired or that the run evaluated,
  conclusively, to have no gap. `recoveredOnly_iff` says along which histories every run is like
  that.
* `RetiredSilent` — no stored insight is about a retired resource, and the gaps of the retired ones
  are recorded as resolved. `retiredSilent_iff` says when.
-/

namespace Constat

open Runner

namespace Lifecycle

/-! ## What an evaluation found -/

/-- The run evaluated the resource, conclusively, and found no gap. -/
def Closed (t : Store) (rule : ResourceRule) (env : RunEnv) (x : Resource) : Prop :=
  evaluateResource t x rule env (factsOf t x.id) = .ok ([], [])

/-- The scope of the resource is proven fresh, it has facts, and they decide the rule; the gap, if
there is one, has the title `title`. -/
def Decided (t : Store) (rule : ResourceRule) (env : RunEnv) (x : Resource) (title : String) :
    Prop :=
  isScopeProven t x rule.source env.scopeMaxAge env.now = true ∧ factsOf t x.id ≠ [] ∧
    ∃ result, rule.evaluate x.id (factsOf t x.id) env.today = .ok result ∧
      result.inconclusiveReasons = [] ∧ ∀ i ∈ result.insights, i.title = title

theorem emitted_of_closed {t : Store} {rule : ResourceRule} {env : RunEnv} {x : Resource}
    (h : Closed t rule env x) : emitted t rule env x = [] := by
  rw [emitted, h]
  rfl

theorem decided_of_closed {t : Store} {rule : ResourceRule} {env : RunEnv} {x : Resource}
    (h : Closed t rule env x) (title : String) : Decided t rule env x title := by
  rw [Closed, evaluateResource] at h
  split at h
  · cases h
  · rename_i hscope
    split at h
    · cases h
    · rename_i hfacts
      split at h
      · cases h
      · rename_i result hresult
        refine ⟨scopeInconclusive_eq_none.1 hscope, by simpa using hfacts, result, hresult, ?_⟩
        split at h
        · rename_i hconclusive
          have hins : result.insights = [] := by injection h with h; injection h
          rw [hins]
          exact ⟨by simpa [RuleResult.isConclusive] using hconclusive, fun i hi => by cases hi⟩
        · injection h with h
          injection h with _ h
          cases h

theorem closed_of_decided {t : Store} {rule : ResourceRule} {env : RunEnv} {x : Resource}
    {title : String} (h : Decided t rule env x title) (hnone : emitted t rule env x = []) :
    Closed t rule env x := by
  obtain ⟨hscope, hfacts, result, hresult, hreasons, _⟩ := h
  have heval := evaluateResource_of_result hscope hfacts hresult hreasons
  have hins : result.insights = [] := by
    rw [emitted, heval] at hnone
    exact hnone
  rw [Closed, heval, hins]

/-! ## Resolved means closed -/

/-- The insight a resource's evaluation emits has the fingerprint of the insight `r`. -/
def SamePrint (i : Insight) (r : InsightRow) : Prop :=
  InsightEvents.fingerprintOf i.ruleName i.resourceId i.title = InsightEvents.fingerprint r

theorem fingerprint_of_head {r : InsightRow} {i : Insight} (h : headOf i = head r) :
    InsightEvents.fingerprintOf i.ruleName i.resourceId i.title = InsightEvents.fingerprint r := by
  obtain ⟨h₁, h₂⟩ := Prod.mk.inj h
  obtain ⟨h₂, h₃⟩ := Prod.mk.inj h₂
  rw [InsightEvents.fingerprint, ← h₁, ← h₂, ← h₃]

/-- After a run, a fingerprint is stored for the rule exactly when some resource emitted it. -/
theorem exists_print_iff {fp : Arith} {rule : ResourceRule} {env : RunEnv} {t t' : Store}
    (h : RunEffect fp rule env t t') (r : InsightRow) :
    (∃ r' ∈ Insights.ofRule t' rule.name,
        InsightEvents.fingerprint r' = InsightEvents.fingerprint r) ↔
      ∃ x ∈ t.resources, ∃ i ∈ emitted t rule env x, SamePrint i r := by
  constructor
  · rintro ⟨r', hr', hprint⟩
    obtain ⟨x, hx, i, hi, hhead⟩ := h.stored hr'
    exact ⟨x, hx, i, hi, (fingerprint_of_head hhead).trans hprint⟩
  · rintro ⟨x, hx, i, hi, hprint⟩
    obtain ⟨r', hr', hhead⟩ := h.inserted hx hi
    exact ⟨r', hr', (fingerprint_of_head hhead.symm).symm.trans hprint⟩

/-- The resolved events of a run about a resource are about one that is retired, or closed by this
run; and only the resolved events of the run move the resolved total. -/
structure RecoveredOnly (fp : Arith) (rule : ResourceRule) (env : RunEnv) (t t' : Store) :
    Prop where
  resolved : ∀ e ∈ newEvents t t', e.event = .resolved → ∀ id ∈ e.resourceId,
    ∃ x ∈ t.resources, x.id = id ∧ (x.retiredAt.isSome ∨ Closed t rule env x)
  total : InsightEvents.resolvedMonthlyUsdTotal fp t'.insightEvents.rows =
    ((newEvents t t').filter fun e => e.event = .resolved).foldl
      (fun total e => fp.add total (e.monthlyUsd.getD (.finite 0)))
      (InsightEvents.resolvedMonthlyUsdTotal fp t.insightEvents.rows)

/-- Every stored gap of the rule is about a resource that is retired, or that the run decides with
the gap's title unchanged. -/
def TitlesStable (rule : ResourceRule) (env : RunEnv) (t : Store) : Prop :=
  ∀ r ∈ Insights.ofRule t rule.name, ∀ id ∈ r.resourceId,
    ∃ x ∈ t.resources, x.id = id ∧ (x.retiredAt.isSome ∨ Decided t rule env x r.title)

/-- The fingerprints the run compares tell its insights apart. -/
structure Distinct (rule : ResourceRule) (env : RunEnv) (t : Store) : Prop where
  stored : ∀ r ∈ Insights.ofRule t rule.name, ∀ r' ∈ Insights.ofRule t rule.name,
    InsightEvents.fingerprint r' = InsightEvents.fingerprint r → r'.resourceId = r.resourceId
  emitted : ∀ r ∈ Insights.ofRule t rule.name, ∀ x ∈ t.resources, ∀ i ∈ emitted t rule env x,
    SamePrint i r → i.resourceId = r.resourceId ∧ i.title = r.title

theorem total_of_events {fp : Arith} {name : String} {t t' : Store} (h : Logged fp name t t') :
    InsightEvents.resolvedMonthlyUsdTotal fp t'.insightEvents.rows =
      ((newEvents t t').filter fun e => e.event = .resolved).foldl
        (fun total e => fp.add total (e.monthlyUsd.getD (.finite 0)))
        (InsightEvents.resolvedMonthlyUsdTotal fp t.insightEvents.rows) := by
  rw [h.events, InsightEvents.resolvedMonthlyUsdTotal, List.filter_append, List.foldl_append]
  rfl

theorem recoveredOnly_of_titlesStable {fp : Arith} {rule : ResourceRule} {env : RunEnv}
    {t t' : Store} (h : RunEffect fp rule env t t') (hstable : TitlesStable rule env t) :
    RecoveredOnly fp rule env t t' := by
  refine ⟨fun e he hkind id hid => ?_, total_of_events h.logged⟩
  obtain ⟨r, hr⟩ := h.logged.resolved e he hkind
  have hid' : id ∈ r.resourceId := by rw [← hr.recorded.resourceId]; exact hid
  obtain ⟨x, hx, hxid, hcase⟩ := hstable r hr.stored id hid'
  refine ⟨x, hx, hxid, hcase.imp_right fun hdecided => closed_of_decided hdecided ?_⟩
  -- an insight with the stored title would have left the fingerprint in place
  refine List.eq_nil_iff_forall_not_mem.2 fun i hi => ?_
  obtain ⟨hname, hres⟩ := mem_emitted hi
  obtain ⟨_, _, hgap⟩ := mem_emitted_iff.1 hi
  obtain ⟨_, _, result, hresult, _, htitle⟩ := hdecided
  rw [hgap] at hresult
  cases hresult
  have hrule : r.ruleName = rule.name := of_decide_eq_true (List.mem_filter.1 hr.stored).2
  have hhead : headOf i = head r := by
    rw [headOf, head, hname, hres, hrule, htitle i (List.mem_singleton_self i), hxid]
    rw [Option.mem_def] at hid'
    rw [hid']
  obtain ⟨r', hr', hprint⟩ := (exists_print_iff h r).2 ⟨x, hx, i, hi, fingerprint_of_head hhead⟩
  exact hr.gone r' hr' hprint

theorem titlesStable_of_recoveredOnly {fp : Arith} {rule : ResourceRule} {env : RunEnv}
    {t t' : Store} (h : RunEffect fp rule env t t') (hdistinct : Distinct rule env t)
    (honly : RecoveredOnly fp rule env t t') : TitlesStable rule env t := by
  intro r hr id hid
  by_cases hkept : ∃ r' ∈ Insights.ofRule t' rule.name,
      InsightEvents.fingerprint r' = InsightEvents.fingerprint r
  · obtain ⟨x, hx, i, hi, hprint⟩ := (exists_print_iff h r).1 hkept
    obtain ⟨hres, htitle⟩ := hdistinct.emitted r hr x hx i hi hprint
    obtain ⟨hscope, hfacts, hgap⟩ := mem_emitted_iff.1 hi
    refine ⟨x, hx, ?_, .inr ⟨hscope, hfacts, _, hgap, rfl, fun j hj => ?_⟩⟩
    · rw [Option.mem_def, ← hres, (mem_emitted hi).2] at hid
      exact Option.some.inj hid
    · rw [List.mem_singleton.1 hj, htitle]
  · obtain ⟨e, he, hkind, hprint⟩ := h.logged.complete r hr fun r' hr' hp => hkept ⟨r', hr', hp⟩
    obtain ⟨r₂, hr₂⟩ := h.logged.resolved e he hkind
    have hres : r₂.resourceId = r.resourceId := hdistinct.stored r hr r₂ hr₂.stored
      (hr₂.recorded.fingerprint.symm.trans hprint)
    have hide : id ∈ e.resourceId := by rw [hr₂.recorded.resourceId, hres]; exact hid
    obtain ⟨x, hx, hxid, hcase⟩ := honly.resolved e he hkind id hide
    exact ⟨x, hx, hxid, hcase.imp_right fun hclosed => decided_of_closed hclosed r.title⟩

/-- Along every history: if every run finds the titles stable, every run records only recoveries;
and the other way round, unless fingerprints collide. -/
theorem recoveredOnly_iff (fp : Arith) (t : Store) (es : List History.Event) :
    (Trace.Along (History.step fp) (History.OfRuns fp fun rule env t _ => TitlesStable rule env t)
        t es →
      Trace.Along (History.step fp) (History.OfRuns fp (RecoveredOnly fp)) t es) ∧
    (Trace.Along (History.step fp) (History.OfRuns fp fun rule env t _ => Distinct rule env t)
        t es →
      Trace.Along (History.step fp) (History.OfRuns fp (RecoveredOnly fp)) t es →
      Trace.Along (History.step fp) (History.OfRuns fp fun rule env t _ => TitlesStable rule env t)
        t es) := by
  constructor
  · refine Trace.Along.mono (History.OfRuns.mono ?_)
    intro rule env t t' heffect hstable
    exact recoveredOnly_of_titlesStable heffect hstable
  · intro hdistinct honly
    refine Trace.Along.mono ?_ (Trace.Along.and_iff.2 ⟨hdistinct, honly⟩)
    intro t e he
    cases e with
    | collect target options world => exact trivial
    | ruleRun rule env =>
      exact titlesStable_of_recoveredOnly (ruleStep_effect fp rule env t) he.1 he.2

/-- A scan at 22:00, and `rds_eol` at 23:00. -/
def evening : List History.Event :=
  [History.rdsScan History.tenthOfDecember [History.ordersDb],
    .ruleRun History.rdsEolRule ⟨History.tenthOfDecember + 3600 * Micros.second,
      .ofYmd 2026 12 10, some defaultScopeMaxAge⟩]

/-- The same rule at 0:30. -/
def nightRun : RunEnv :=
  ⟨History.tenthOfDecember + 9000 * Micros.second, .ofYmd 2026 12 11, some defaultScopeMaxAge⟩

/-- The run at 0:30 logs the gap as resolved although it is still open: its countdown moved. -/
theorem countdown_resolved : ¬ Trace.Along (History.step .double)
    (History.OfRuns .double (RecoveredOnly .double)) Store.empty
    (evening ++ [.ruleRun History.rdsEolRule nightRun]) := by
  intro h
  let t := Trace.exec (History.step .double) Store.empty evening
  have hnight : RecoveredOnly .double History.rdsEolRule nightRun t
      (ruleStep .double History.rdsEolRule nightRun t) := (Trace.Along.append.1 h).2.1
  have hbad : ∃ e ∈ newEvents t (ruleStep .double History.rdsEolRule nightRun t),
      e.event = .resolved ∧ e.resourceId = some 0 ∧
        ∀ x ∈ t.resources, x.retiredAt = none ∧ emitted t History.rdsEolRule nightRun x ≠ [] := by
    decide +kernel
  obtain ⟨e, he, hkind, hid, hopen⟩ := hbad
  obtain ⟨x, hx, _, hcase⟩ := hnight.resolved e he hkind 0 hid
  obtain ⟨hlive, hgap⟩ := hopen x hx
  rcases hcase with hretired | hclosed
  · rw [hlive] at hretired; cases hretired
  · exact hgap (emitted_of_closed hclosed)

/-! ## Retired resources -/

/-- No stored insight of the rule is about a retired resource, and the stored gaps of the retired
ones are recorded as resolved. -/
structure RetiredSilent (rule : ResourceRule) (t t' : Store) : Prop where
  silent : ∀ r ∈ Insights.ofRule t' rule.name, ∀ x ∈ t'.resources, r.resourceId = some x.id →
    x.retiredAt = none
  resolved : ∀ r ∈ Insights.ofRule t rule.name, ∀ x ∈ t.resources, r.resourceId = some x.id →
    x.retiredAt.isSome → ∃ e ∈ newEvents t t', e.event = .resolved ∧
      e.fingerprint = InsightEvents.fingerprint r

/-- The scope is not proven fresh, or the resource has no facts, or the rule finds no gap in
them. -/
def NoGap (t : Store) (rule : ResourceRule) (env : RunEnv) (x : Resource) : Prop :=
  isScopeProven t x rule.source env.scopeMaxAge env.now = false ∨ factsOf t x.id = [] ∨
    ∀ i, rule.evaluate x.id (factsOf t x.id) env.today ≠ .ok (.gap i)

/-- Every retired resource gives the rule no gap, and no resource emits an insight with the
fingerprint of a stored insight of a retired one. -/
structure RetiredGapless (rule : ResourceRule) (env : RunEnv) (t : Store) : Prop where
  noGap : ∀ x ∈ t.resources, x.retiredAt.isSome → NoGap t rule env x
  noPrint : ∀ r ∈ Insights.ofRule t rule.name, ∀ x ∈ t.resources, r.resourceId = some x.id →
    x.retiredAt.isSome → ∀ y ∈ t.resources, ∀ i ∈ emitted t rule env y, ¬ SamePrint i r

theorem emitted_eq_nil_iff {t : Store} {rule : ResourceRule} {env : RunEnv} {x : Resource} :
    emitted t rule env x = [] ↔ NoGap t rule env x := by
  rw [List.eq_nil_iff_forall_not_mem]
  simp only [mem_emitted_iff, NoGap]
  constructor
  · intro h
    by_cases hscope : isScopeProven t x rule.source env.scopeMaxAge env.now = true
    · by_cases hfacts : factsOf t x.id = []
      · exact .inr (.inl hfacts)
      · exact .inr (.inr fun i hi => h i ⟨hscope, hfacts, hi⟩)
    · exact .inl (by simpa using hscope)
  · rintro (hscope | hfacts | hgap) i ⟨hscope', hfacts', hgap'⟩
    · rw [hscope] at hscope'; cases hscope'
    · exact hfacts' hfacts
    · exact hgap i hgap'

theorem retiredSilent_step {fp : Arith} {rule : ResourceRule} {env : RunEnv} {t t' : Store}
    (h : RunEffect fp rule env t t') : RetiredSilent rule t t' ↔ RetiredGapless rule env t := by
  constructor
  · intro hs
    refine ⟨fun x hx hretired => ?_, fun r hr x hx hid hretired y hy i hi hprint => ?_⟩
    · rw [← emitted_eq_nil_iff, List.eq_nil_iff_forall_not_mem]
      intro i hi
      obtain ⟨r, hr, hhead⟩ := h.inserted hx hi
      have hid : r.resourceId = some x.id := by
        rw [← (mem_emitted hi).2]
        exact congrArg (fun hd : Head => hd.2.1) hhead
      have hlive := hs.silent r hr x (by rw [h.inventory.resources]; exact hx) hid
      rw [hlive] at hretired
      cases hretired
    · obtain ⟨e, he, hkind, hprint'⟩ := hs.resolved r hr x hx hid hretired
      obtain ⟨r₂, hr₂⟩ := h.logged.resolved e he hkind
      obtain ⟨r', hr', hsame⟩ := (exists_print_iff h r).2 ⟨y, hy, i, hi, hprint⟩
      exact hr₂.gone r' hr' (hsame.trans (hprint'.symm.trans hr₂.recorded.fingerprint))
  · intro hg
    refine ⟨fun r hr x hx hid => ?_, fun r hr x hx hid hretired => ?_⟩
    · rw [h.inventory.resources] at hx
      obtain ⟨y, hy, i, hi, hhead⟩ := h.stored hr
      have hyx : y = x := by
        refine Table.eq_of_key hy hx (Option.some.inj ?_)
        rw [← (mem_emitted hi).2, ← hid]
        exact congrArg (fun hd : Head => hd.2.1) hhead
      subst hyx
      cases hretired : y.retiredAt with
      | none => rfl
      | some at_ =>
        have hnil := emitted_eq_nil_iff.2 (hg.noGap y hx (by rw [hretired]; rfl))
        rw [hnil] at hi
        cases hi
    · refine h.logged.complete r hr fun r' hr' hprint => ?_
      obtain ⟨y, hy, i, hi, hsame⟩ := (exists_print_iff h r).1 ⟨r', hr', hprint⟩
      exact hg.noPrint r hr x hx hid hretired y hy i hi hsame

/-- Along every history, the runs keep the retired resources silent exactly when the retired
resources give them no gap. -/
theorem retiredSilent_iff (fp : Arith) (t : Store) (es : List History.Event) :
    Trace.Along (History.step fp) (History.OfRuns fp fun rule _ t t' => RetiredSilent rule t t')
        t es ↔
      Trace.Along (History.step fp)
        (History.OfRuns fp fun rule env t _ => RetiredGapless rule env t) t es := by
  constructor
  · refine Trace.Along.mono (History.OfRuns.mono ?_)
    intro rule env t t' heffect hs
    exact (retiredSilent_step heffect).1 hs
  · refine Trace.Along.mono (History.OfRuns.mono ?_)
    intro rule env t t' heffect hg
    exact (retiredSilent_step heffect).2 hg

/-- An instance is seen once and missed by the next two scans. -/
def threeScans : List History.Event :=
  [History.rdsScan History.tenthOfDecember [History.ordersDb],
    History.rdsScan (History.tenthOfDecember + Micros.day) [],
    History.rdsScan (History.tenthOfDecember + 2 * Micros.day) []]

def thirdDayRun : RunEnv :=
  ⟨History.tenthOfDecember + 2 * Micros.day + 3600 * Micros.second, .ofYmd 2026 12 12,
    some defaultScopeMaxAge⟩

/-- The sweep has retired the instance, and the rule still emits an insight for it. -/
theorem retired_instance_emits : ¬ Trace.Along (History.step .double)
    (History.OfRuns .double fun rule _ t t' => RetiredSilent rule t t') Store.empty
    (threeScans ++ [.ruleRun History.rdsEolRule thirdDayRun]) := by
  intro h
  let t := Trace.exec (History.step .double) Store.empty threeScans
  let t' := ruleStep .double History.rdsEolRule thirdDayRun t
  have hrun : RetiredSilent History.rdsEolRule t t' := (Trace.Along.append.1 h).2.1
  have hbad : ∃ r ∈ Insights.ofRule t' History.rdsEolRule.name, ∃ x ∈ t'.resources,
      r.resourceId = some x.id ∧ x.retiredAt ≠ none := by
    decide +kernel
  obtain ⟨r, hr, x, hx, hid, hretired⟩ := hbad
  exact hretired (hrun.silent r hr x hx hid)

end Lifecycle

end Constat
