import Constat.History

/-!
# Freshness

The freshness window of a rule run is about scopes. A resource is evaluated when its scope has a
successful source run inside the window; the age of the facts themselves is not looked at. A scan
that completes without seeing a resource renews the scope and not the resource's facts.
-/

namespace Constat

open Runner

namespace Freshness

/-- The rule's verdict on the resource depends on the fact `f`. -/
def RestsOn (rule : ResourceRule) (id : Uuid) (facts : List Fact) (today : Date) (f : Fact) :
    Prop :=
  rule.evaluate id (facts.filter (· ≠ f)) today ≠ rule.evaluate id facts today

/-- Every insight the run stores rests on facts inside the window only. -/
def FreshFacts (rule : ResourceRule) (env : RunEnv) (t t' : Store) : Prop :=
  ∀ r ∈ Insights.ofRule t' rule.name, ∀ x ∈ t.resources, r.resourceId = some x.id →
    ∀ f ∈ factsOf t x.id, RestsOn rule x.id (factsOf t x.id) env.today f →
      ∀ age ∈ env.scopeMaxAge, env.now - age ≤ f.observedAt

/-- The scope of the resource has a successful run that finished inside the window. -/
def ScopeFresh (t : Store) (rule : ResourceRule) (env : RunEnv) (x : Resource) : Prop :=
  ∃ run ∈ SourceRuns.successfulRuns t (scopeOf x rule.source), ∀ age ∈ env.scopeMaxAge,
    ∃ finished, run.finishedAt = some finished ∧ env.now - age ≤ finished

/-- The rows of `inconclusive.py` that say so of a scope. -/
def scopeReasons : List (List String) := [["scope_not_proven"], ["scope_stale"]]

/-- Every stored insight of the rule is about a resource of a fresh scope; a resource of any other
scope is on record as INCONCLUSIVE and has none. -/
structure FreshScopes (rule : ResourceRule) (env : RunEnv) (t t' : Store) : Prop where
  fresh : ∀ r ∈ Insights.ofRule t' rule.name, ∃ x ∈ t.resources, r.resourceId = some x.id ∧
    ScopeFresh t rule env x
  stale : ∀ x ∈ t.resources, ¬ ScopeFresh t rule env x →
    (∃ row ∈ t'.inconclusive, row.ruleName = rule.name ∧ row.resourceId = some x.id ∧
      row.missingFacts ∈ scopeReasons) ∧
    ∀ r ∈ Insights.ofRule t' rule.name, r.resourceId ≠ some x.id

theorem scopeFresh_of_proven {t : Store} {rule : ResourceRule} {env : RunEnv} {x : Resource}
    (h : isScopeProven t x rule.source env.scopeMaxAge env.now = true) :
    ScopeFresh t rule env x := by
  obtain ⟨run, hrun⟩ := Option.isSome_iff_exists.1 h
  obtain ⟨hmem, hage⟩ := SourceRuns.latestSuccessfulRun_spec hrun
  exact ⟨run, hmem, hage⟩

/-- A resource whose scope is not proven is left undecided, for the scope's sake. -/
theorem undecided_of_unproven {t : Store} {rule : ResourceRule} {env : RunEnv} {x : Resource}
    (h : isScopeProven t x rule.source env.scopeMaxAge env.now = false) :
    ∃ i ∈ undecided t rule env x, i.ruleName = rule.name ∧ i.resourceId = some x.id ∧
      i.missingFacts ∈ scopeReasons := by
  have hnone : scopeInconclusive t x rule env ≠ none := fun hn => by
    rw [scopeInconclusive_eq_none, h] at hn
    cases hn
  obtain ⟨inc, hinc⟩ := Option.ne_none_iff_exists'.1 hnone
  have heval : evaluateResource t x rule env (factsOf t x.id) = .ok ([], [inc]) := by
    rw [evaluateResource, hinc]
  refine ⟨inc, by rw [undecided, heval]; exact List.mem_singleton_self inc, ?_⟩
  simp only [scopeInconclusive, h, Bool.false_eq_true, if_false] at hinc
  split at hinc
  · cases hinc; simp [scopeReasons]
  · cases hinc; simp [scopeReasons]

theorem freshScopes_step {fp : Arith} {rule : ResourceRule} {env : RunEnv} {t t' : Store}
    (h : RunEffect fp rule env t t') : FreshScopes rule env t t' := by
  have hfresh : ∀ r ∈ Insights.ofRule t' rule.name, ∃ x ∈ t.resources,
      r.resourceId = some x.id ∧ ScopeFresh t rule env x := by
    intro r hr
    obtain ⟨x, hx, i, hi, hhead⟩ := h.stored hr
    refine ⟨x, hx, ?_, scopeFresh_of_proven (mem_emitted_iff.1 hi).1⟩
    rw [← (mem_emitted hi).2]
    exact (congrArg (fun hd : Head => hd.2.1) hhead).symm
  refine ⟨hfresh, fun x hx hstale => ⟨?_, fun r hr hid => ?_⟩⟩
  · have hunproven : isScopeProven t x rule.source env.scopeMaxAge env.now = false := by
      rw [← Bool.not_eq_true]
      exact fun hp => hstale (scopeFresh_of_proven hp)
    obtain ⟨i, hi, hname, hid, hmissing⟩ := undecided_of_unproven hunproven
    obtain ⟨row, hrow, heq⟩ := h.recorded hx hi
    obtain ⟨h₁, h₂⟩ := Prod.mk.inj heq
    obtain ⟨h₂, h₃⟩ := Prod.mk.inj h₂
    exact ⟨row, hrow, h₁.trans hname, h₂.trans hid, by rw [h₃]; exact hmissing⟩
  · obtain ⟨y, hy, hyid, hyfresh⟩ := hfresh r hr
    have hyx : y = x := Table.eq_of_key hy hx (Option.some.inj (hyid.symm.trans hid))
    exact hstale (hyx ▸ hyfresh)

/-- In every history, every run keeps to fresh scopes. -/
theorem freshScopes_always (fp : Arith) (t : Store) (es : List History.Event) :
    Trace.Along (History.step fp) (History.OfRuns fp FreshScopes) t es := by
  refine Trace.Along.of_prefix fun pre e suf _ => ?_
  cases e with
  | collect target options world => exact trivial
  | ruleRun rule env => exact freshScopes_step (ruleStep_effect fp rule env _)

/-- An instance is seen once; ten days later a complete scan of the scope does not see it. -/
def tenDaysOn : Micros := History.tenthOfDecember + 10 * Micros.day

def seenOnce : List History.Event :=
  [History.rdsScan History.tenthOfDecember [History.ordersDb], History.rdsScan tenDaysOn []]

def dailyRun : RunEnv :=
  ⟨tenDaysOn + 3600 * Micros.second, .ofYmd 2026 12 20, some defaultScopeMaxAge⟩

/-- With a window of a day, the run emits an insight that rests on facts ten days old. -/
theorem old_facts_emit : ¬ Trace.Along (History.step .double) (History.OfRuns .double FreshFacts)
    Store.empty (seenOnce ++ [.ruleRun History.rdsEolRule dailyRun]) := by
  intro h
  let t := Trace.exec (History.step .double) Store.empty seenOnce
  let t' := ruleStep .double History.rdsEolRule dailyRun t
  have hrun : FreshFacts History.rdsEolRule dailyRun t t' := (Trace.Along.append.1 h).2.1
  have hbad : ∃ r ∈ Insights.ofRule t' History.rdsEolRule.name, ∃ x ∈ t.resources,
      r.resourceId = some x.id ∧ ∃ f ∈ factsOf t x.id,
        History.rdsEolRule.evaluate x.id ((factsOf t x.id).filter (· ≠ f)) dailyRun.today ≠
          History.rdsEolRule.evaluate x.id (factsOf t x.id) dailyRun.today ∧
        f.observedAt < dailyRun.now - defaultScopeMaxAge := by
    decide +kernel
  obtain ⟨r, hr, x, hx, hid, f, hf, hrests, hold⟩ := hbad
  have hage := hrun r hr x hx hid f hf hrests defaultScopeMaxAge rfl
  exact absurd hold (Int.not_lt.2 hage)

end Freshness

end Constat
