import Constat.Lib.Loop
import Constat.Runner

/-!
# RuleRun

What one rule run does to the store, for every rule and every store.

* `SameInventory` — what a rule run reads and never writes.
* `heads` — the stored insights as (rule, resource, title), in their order. Context and carried
  acknowledgements change a row in place, so they keep its head.
* `RunEffect` — the effect of a run: the heads of the other rules followed by what the evaluation
  of each resource emits, and the events recorded for the difference.
-/

namespace Constat

open Session (WritesOnly)

/-! ## Frames -/

/-- The part of the store a rule run reads and never writes. -/
structure SameInventory (t t' : Store) : Prop where
  accounts : t'.accounts = t.accounts
  resources : t'.resources = t.resources
  observations : t'.observations = t.observations
  facts : t'.facts = t.facts
  sourceRuns : t'.sourceRuns = t.sourceRuns
  collectJobs : t'.collectJobs = t.collectJobs
  focusCharges : t'.focusCharges = t.focusCharges
  focusChargeTags : t'.focusChargeTags = t.focusChargeTags
  auditEvents : t'.auditEvents = t.auditEvents
  piiClassifications : t'.piiClassifications = t.piiClassifications

/-- The writes of a rule run. -/
def isReport : Write → Bool
  | .insight _ | .inconclusive _ | .insightEvent _ | .insightRun _ | .deleteInsightsOf _
  | .deleteInconclusiveOf _ => true
  | _ => false

/-- The writes that replace the output of its rule. -/
def isOutput : Write → Bool
  | .insight _ | .inconclusive _ | .deleteInsightsOf _ | .deleteInconclusiveOf _ => true
  | _ => false

theorem isReport_of_isOutput (w : Write) (h : isOutput w = true) : isReport w = true := by
  cases w <;> first | rfl | cases h

theorem SameInventory.of_writesOnly {s s' : DbSession} (h : WritesOnly isReport s s') :
    SameInventory s.working s'.working where
  accounts := h.frame Store.accounts fun w hw t => by cases w <;> first | rfl | cases hw
  resources := h.frame Store.resources fun w hw t => by cases w <;> first | rfl | cases hw
  observations := h.frame Store.observations fun w hw t => by cases w <;> first | rfl | cases hw
  facts := h.frame Store.facts fun w hw t => by cases w <;> first | rfl | cases hw
  sourceRuns := h.frame Store.sourceRuns fun w hw t => by cases w <;> first | rfl | cases hw
  collectJobs := h.frame Store.collectJobs fun w hw t => by cases w <;> first | rfl | cases hw
  focusCharges := h.frame Store.focusCharges fun w hw t => by cases w <;> first | rfl | cases hw
  focusChargeTags := h.frame Store.focusChargeTags fun w hw t => by cases w <;> first | rfl | cases hw
  auditEvents := h.frame Store.auditEvents fun w hw t => by cases w <;> first | rfl | cases hw
  piiClassifications := h.frame Store.piiClassifications fun w hw t => by cases w <;> first | rfl | cases hw

theorem events_of_writesOnly {s s' : DbSession} (h : WritesOnly isOutput s s') :
    s'.working.insightEvents = s.working.insightEvents :=
  h.frame Store.insightEvents fun w hw t => by cases w <;> first | rfl | cases hw

namespace Runner

/-! ## Heads -/

abbrev Head := String × Option Uuid × String

def head (r : InsightRow) : Head := (r.ruleName, r.resourceId, r.title)

def heads (t : Store) : List Head := t.insights.rows.map head

def headOf (i : Insight) : Head := (i.ruleName, i.resourceId, i.title)

abbrev Reason := String × Option Uuid × List String

def reason (r : InconclusiveRow) : Reason := (r.ruleName, r.resourceId, r.missingFacts)

def reasons (t : Store) : List Reason := t.inconclusive.rows.map reason

def reasonOf (i : Inconclusive) : Reason := (i.ruleName, i.resourceId, i.missingFacts)

theorem mem_heads {t : Store} {h : Head} : h ∈ heads t ↔ ∃ r ∈ t.insights, head r = h :=
  List.mem_map

/-! ## Rows -/

/-- The row of an insight that a run inserts under `id`. -/
def insightRow (id : Uuid) (i : Insight) (now : Micros) : InsightRow where
  id := id
  ruleName := i.ruleName
  resourceId := i.resourceId
  accountId := i.accountId
  severity := i.severity
  title := i.title
  payload := i.payload
  computedAt := now
  ackStatus := none
  ackAt := none
  ackBy := none

def inconclusiveRow (id : Uuid) (i : Inconclusive) (now : Micros) : InconclusiveRow where
  id := id
  ruleName := i.ruleName
  resourceId := i.resourceId
  accountId := i.accountId
  missingFacts := i.missingFacts
  reason := i.reason
  computedAt := now
  owner := none
  dueDate := none
  status := .opened

/-- The rows of a list that is inserted from the id `next` on. -/
def insightRows (next : Uuid) (is : List Insight) (now : Micros) : List InsightRow :=
  (is.zipIdx next).map fun p => insightRow p.2 p.1 now

def inconclusiveRows (next : Uuid) (is : List Inconclusive) (now : Micros) : List InconclusiveRow :=
  (is.zipIdx next).map fun p => inconclusiveRow p.2 p.1 now

/-- `t'` is `t` with these insights and inconclusive records inserted. -/
structure Appended (now : Micros) (t t' : Store) (is : List Insight) (incs : List Inconclusive) :
    Prop where
  insights : t'.insights.rows = t.insights.rows ++ insightRows t.insights.next is now
  insightsNext : t'.insights.next = t.insights.next + is.length
  inconclusive : t'.inconclusive.rows =
    t.inconclusive.rows ++ inconclusiveRows t.inconclusive.next incs now
  inconclusiveNext : t'.inconclusive.next = t.inconclusive.next + incs.length

namespace Appended

variable {now : Micros} {t t' t'' : Store} {is is' : List Insight} {incs incs' : List Inconclusive}

theorem refl (now : Micros) (t : Store) : Appended now t t [] [] :=
  ⟨(List.append_nil _).symm, rfl, (List.append_nil _).symm, rfl⟩

theorem trans (h : Appended now t t' is incs) (h' : Appended now t' t'' is' incs') :
    Appended now t t'' (is ++ is') (incs ++ incs') := by
  refine ⟨?_, ?_, ?_, ?_⟩
  · rw [h'.insights, h.insights, h.insightsNext, insightRows, insightRows, insightRows,
      List.zipIdx_append, List.map_append, List.append_assoc]
  · rw [h'.insightsNext, h.insightsNext, List.length_append, Nat.add_assoc]
  · rw [h'.inconclusive, h.inconclusive, h.inconclusiveNext, inconclusiveRows, inconclusiveRows,
      inconclusiveRows, List.zipIdx_append, List.map_append, List.append_assoc]
  · rw [h'.inconclusiveNext, h.inconclusiveNext, List.length_append, Nat.add_assoc]

theorem insight (s : DbSession) (i : Insight) (now : Micros) :
    Appended now s.working (Insights.insertInsight s i now).working [i] [] :=
  ⟨Table.rows_put_next _ rfl, Nat.max_eq_right (Nat.le_succ _), (List.append_nil _).symm, rfl⟩

theorem inconclusiveItem (s : DbSession) (i : Inconclusive) (now : Micros) :
    Appended now s.working (Insights.insertInconclusive s i now).working [] [i] :=
  ⟨(List.append_nil _).symm, rfl, Table.rows_put_next _ rfl, Nat.max_eq_right (Nat.le_succ _)⟩

end Appended

/-- The row as the context and the carried acknowledgement leave it. -/
def finishedRow (fp : Arith) (ruleName : String) (t : Store) (r : InsightRow) : InsightRow :=
  let r := (Reconcile.contextualized fp t ruleName r).getD r
  (Insights.carried (Insights.snapshotAcks t ruleName) r).getD r

theorem contextualized_row {fp : Arith} {t : Store} {ruleName : String} {r r' : InsightRow}
    (h : Reconcile.contextualized fp t ruleName r = some r') :
    r'.id = r.id ∧ head r' = head r := by
  rw [Reconcile.contextualized] at h
  split at h
  · cases h
  · split at h
    · cases h
    · obtain ⟨fields, _, rfl⟩ := Option.map_eq_some_iff.1 h
      exact ⟨rfl, rfl⟩

theorem carried_row {acks : Dict String Insights.Ack} {r r' : InsightRow}
    (h : Insights.carried acks r = some r') : r'.id = r.id ∧ head r' = head r := by
  rw [Insights.carried] at h
  split at h
  · obtain ⟨ack, _, rfl⟩ := Option.map_eq_some_iff.1 h
    exact ⟨rfl, rfl⟩
  · cases h

theorem head_finishedRow (fp : Arith) (ruleName : String) (t : Store) (r : InsightRow) :
    head (finishedRow fp ruleName t r) = head r := by
  simp only [finishedRow]
  cases hc : Reconcile.contextualized fp t ruleName r with
  | none =>
    cases ha : Insights.carried (Insights.snapshotAcks t ruleName) r with
    | none => simp [ha]
    | some r' => simp [ha, (carried_row ha).2]
  | some r' =>
    cases ha : Insights.carried (Insights.snapshotAcks t ruleName) r' with
    | none => simp [ha, (contextualized_row hc).2]
    | some r'' => simp [ha, (carried_row ha).2, (contextualized_row hc).2]

/-- Rewriting the rows of a rule in place. -/
theorem rows_ofRule_rewrite (f : InsightRow → Option InsightRow)
    (hf : ∀ r r', f r = some r' → r'.id = r.id ∧ head r' = head r) (s : DbSession)
    (ruleName : String) :
    (s.writes (((Insights.ofRule s.working ruleName).filterMap f).map .insight)).working.insights.rows
      = s.working.insights.rows.map fun r => if r.ruleName = ruleName then (f r).getD r else r := by
  have htable : ∀ (rows : List InsightRow) (t : Store),
      ((rows.map Write.insight).foldl applyWrite t).insights = t.insights.putAll rows := by
    intro rows
    induction rows with
    | nil => intro t; rfl
    | cons r rows ih => intro t; rw [List.map_cons, List.foldl_cons, ih]; rfl
  let g := fun r : InsightRow => if r.ruleName = ruleName then f r else none
  have hfilter : (Insights.ofRule s.working ruleName).filterMap f =
      s.working.insights.rows.filterMap g := by
    rw [Insights.ofRule, List.filterMap_filter]
    simp only [decide_eq_true_eq]
    rfl
  rw [Session.writes_working, htable, hfilter, Table.rows_putAll_filterMap _ g]
  · refine List.map_congr_left fun r _ => ?_
    simp only [g]
    split <;> rfl
  · intro r r' h
    simp only [g] at h
    split at h
    · exact (hf r r' h).1
    · cases h

def isInsight : Write → Bool
  | .insight _ => true
  | _ => false

theorem isOutput_of_isInsight (w : Write) (h : isInsight w = true) : isOutput w = true := by
  cases w <;> first | rfl | cases h

theorem writesOnly_insights (s : DbSession) (rows : List InsightRow) :
    WritesOnly isInsight s (s.writes (rows.map .insight)) := by
  refine ⟨rows.map .insight, fun w hw => ?_, rfl⟩
  obtain ⟨r, _, rfl⟩ := List.mem_map.1 hw
  rfl

/-! ## The evaluation loop -/

/-- What an evaluation inserts; nothing when it raises. -/
def output : Except PyError (List Insight × List Inconclusive) →
    List Insight × List Inconclusive
  | .ok out => out
  | .error _ => ([], [])

/-- What evaluating a resource emits. -/
def emitted (t : Store) (rule : ResourceRule) (env : RunEnv) (r : Resource) : List Insight :=
  (output (evaluateResource t r rule env (factsOf t r.id))).1

/-- What it leaves undecided. -/
def undecided (t : Store) (rule : ResourceRule) (env : RunEnv) (r : Resource) :
    List Inconclusive :=
  (output (evaluateResource t r rule env (factsOf t r.id))).2

theorem latestSuccessfulRun_congr {t t' : Store} (h : t'.sourceRuns = t.sourceRuns)
    (scope : Scope) (maxAge : Option Micros) (now : Micros) :
    SourceRuns.latestSuccessfulRun t' scope maxAge now =
      SourceRuns.latestSuccessfulRun t scope maxAge now := by
  rw [SourceRuns.latestSuccessfulRun, SourceRuns.latestSuccessfulRun, SourceRuns.successfulRuns,
    SourceRuns.successfulRuns, h]

theorem scopeInconclusive_congr {t t' : Store} (h : t'.sourceRuns = t.sourceRuns) (r : Resource)
    (rule : ResourceRule) (env : RunEnv) :
    scopeInconclusive t' r rule env = scopeInconclusive t r rule env := by
  rw [scopeInconclusive, scopeInconclusive, isScopeProven, isScopeProven,
    latestSuccessfulRun_congr h, latestSuccessfulRun_congr h]

/-- Only the source runs of the store decide an evaluation of given facts. -/
theorem evaluateResource_congr {t t' : Store} (h : t'.sourceRuns = t.sourceRuns) (r : Resource)
    (rule : ResourceRule) (env : RunEnv) (facts : List Fact) :
    evaluateResource t' r rule env facts = evaluateResource t r rule env facts := by
  rw [evaluateResource, evaluateResource, scopeInconclusive_congr h]

theorem scopeInconclusive_eq_none {t : Store} {x : Resource} {rule : ResourceRule}
    {env : RunEnv} : scopeInconclusive t x rule env = none ↔
      isScopeProven t x rule.source env.scopeMaxAge env.now = true := by
  rw [scopeInconclusive]
  by_cases h : isScopeProven t x rule.source env.scopeMaxAge env.now = true
  · simp [h]
  · rw [if_neg h]
    constructor
    · intro hn
      split at hn <;> cases hn
    · intro hp; exact absurd hp h

theorem evaluateResource_of_result {t : Store} {rule : ResourceRule} {env : RunEnv} {x : Resource}
    {result : RuleResult} (hscope : isScopeProven t x rule.source env.scopeMaxAge env.now = true)
    (hfacts : factsOf t x.id ≠ [])
    (hresult : rule.evaluate x.id (factsOf t x.id) env.today = .ok result)
    (hreasons : result.inconclusiveReasons = []) :
    evaluateResource t x rule env (factsOf t x.id) = .ok (result.insights, []) := by
  have hne : (factsOf t x.id).isEmpty = false := by simpa using hfacts
  simp [evaluateResource, scopeInconclusive_eq_none.2 hscope, hne, hresult, RuleResult.isConclusive,
    hreasons]

theorem eq_gap_of_mem {name : String} {id : Uuid} {result : RuleResult} {i : Insight}
    (hsound : result.Sound name id) (hi : i ∈ result.insights) : result = .gap i := by
  have hlist : result.insights = [i] := by
    match hins : result.insights, hsound.single with
    | [], _ => rw [hins] at hi; cases hi
    | [j], _ => rw [hins, List.mem_singleton] at hi; rw [hi]
  have hreasons := hsound.silent (by rw [hlist]; exact List.cons_ne_nil i [])
  cases result
  simp only at hlist hreasons
  rw [hlist, hreasons]
  rfl

/-- A resource emits an insight when its scope is proven, it has facts, and the rule finds that gap
in them. -/
theorem mem_emitted_iff {t : Store} {rule : ResourceRule} {env : RunEnv} {x : Resource}
    {i : Insight} : i ∈ emitted t rule env x ↔
      isScopeProven t x rule.source env.scopeMaxAge env.now = true ∧ factsOf t x.id ≠ [] ∧
        rule.evaluate x.id (factsOf t x.id) env.today = .ok (.gap i) := by
  constructor
  · intro h
    rw [emitted, evaluateResource] at h
    split at h
    · cases h
    · rename_i hscope
      split at h
      · cases h
      · rename_i hfacts
        split at h
        · cases h
        · rename_i result hresult
          have hi : i ∈ result.insights := by
            split at h <;> exact h
          refine ⟨scopeInconclusive_eq_none.1 hscope, by simpa using hfacts, ?_⟩
          rw [hresult, eq_gap_of_mem (rule.sound hresult) hi]
  · rintro ⟨hscope, hfacts, hresult⟩
    rw [emitted, evaluateResource_of_result hscope hfacts hresult rfl]
    exact List.mem_singleton_self i

theorem mem_emitted {t : Store} {rule : ResourceRule} {env : RunEnv} {r : Resource} {i : Insight}
    (h : i ∈ emitted t rule env r) : i.ruleName = rule.name ∧ i.resourceId = some r.id :=
  (rule.sound (mem_emitted_iff.1 h).2.2).about i (List.mem_singleton_self i)

theorem emitted_length_le (t : Store) (rule : ResourceRule) (env : RunEnv) (r : Resource) :
    (emitted t rule env r).length ≤ 1 := by
  match h : emitted t rule env r with
  | [] => exact Nat.zero_le 1
  | [_] => exact Nat.le_refl 1
  | i :: j :: rest =>
    exfalso
    have hi : i ∈ emitted t rule env r := by rw [h]; exact List.mem_cons_self
    obtain ⟨hscope, hfacts, hgap⟩ := mem_emitted_iff.1 hi
    rw [emitted, evaluateResource_of_result hscope hfacts hgap rfl] at h
    cases h

theorem mem_undecided {t : Store} {rule : ResourceRule} {env : RunEnv} {r : Resource}
    {i : Inconclusive} (h : i ∈ undecided t rule env r) :
    i.ruleName = rule.name ∧ i.resourceId = some r.id := by
  rw [undecided, evaluateResource, scopeInconclusive] at h
  by_cases hproven : isScopeProven t r rule.source env.scopeMaxAge env.now = true
  · rw [if_pos hproven] at h
    simp only at h
    split at h
    · rw [List.mem_singleton.1 h]; exact ⟨rfl, rfl⟩
    · split at h
      · cases h
      · split at h
        · cases h
        · rw [List.mem_singleton.1 h]; exact ⟨rfl, rfl⟩
  · rw [if_neg hproven] at h
    simp only at h
    cases hlatest : SourceRuns.latestSuccessfulRun t (scopeOf r rule.source) none env.now with
    | none => rw [hlatest] at h; rw [List.mem_singleton.1 h]; exact ⟨rfl, rfl⟩
    | some latest => rw [hlatest] at h; rw [List.mem_singleton.1 h]; exact ⟨rfl, rfl⟩

theorem insertAll_spec (insights : List Insight) (s : DbSession) (now : Micros) :
    WritesOnly isOutput s (insights.foldl (fun s i => Insights.insertInsight s i now) s) ∧
      Appended now s.working
        (insights.foldl (fun s i => Insights.insertInsight s i now) s).working insights [] := by
  refine ⟨WritesOnly.foldl (fun s i => WritesOnly.write s rfl) insights s, ?_⟩
  induction insights generalizing s with
  | nil => exact Appended.refl now _
  | cons i insights ih => exact (Appended.insight s i now).trans (ih _)

theorem insertAllInconclusive_spec (items : List Inconclusive) (s : DbSession) (now : Micros) :
    WritesOnly isOutput s (items.foldl (fun s i => Insights.insertInconclusive s i now) s) ∧
      Appended now s.working
        (items.foldl (fun s i => Insights.insertInconclusive s i now) s).working [] items := by
  refine ⟨WritesOnly.foldl (fun s i => WritesOnly.write s rfl) items s, ?_⟩
  induction items generalizing s with
  | nil => exact Appended.refl now _
  | cons i items ih => exact (Appended.inconclusiveItem s i now).trans (ih _)

theorem evaluateInto_spec (rule : ResourceRule) (env : RunEnv) (facts : Uuid → List Fact)
    (st : LoopState) (r : Resource) :
    let out := output (evaluateResource st.session.working r rule env (facts r.id))
    WritesOnly isOutput st.session (evaluateInto rule env facts st r).session ∧
      Appended env.now st.session.working (evaluateInto rule env facts st r).session.working
        out.1 out.2 := by
  simp only [evaluateInto]
  cases evaluateResource st.session.working r rule env (facts r.id) with
  | error e => exact ⟨WritesOnly.refl _ _, Appended.refl _ _⟩
  | ok out =>
    obtain ⟨insights, inconclusive⟩ := out
    obtain ⟨hw, hrows⟩ := insertAll_spec insights st.session env.now
    obtain ⟨hw', hrows'⟩ := insertAllInconclusive_spec inconclusive
      (insights.foldl (fun s i => Insights.insertInsight s i env.now) st.session) env.now
    have hboth := hrows.trans hrows'
    rw [List.append_nil, List.nil_append] at hboth
    exact ⟨hw.trans hw', hboth⟩

/-- What the resources of a store emit and leave undecided, in the order of the resources. -/
def emittedAll (t : Store) (rule : ResourceRule) (env : RunEnv) : List Insight :=
  t.resources.rows.flatMap (emitted t rule env)

def undecidedAll (t : Store) (rule : ResourceRule) (env : RunEnv) : List Inconclusive :=
  t.resources.rows.flatMap (undecided t rule env)

/-- The loop appends what each resource yields. -/
theorem evaluateAll_spec (s : DbSession) (rule : ResourceRule) (env : RunEnv) :
    WritesOnly isOutput s (evaluateAll s rule env).session ∧
      Appended env.now s.working (evaluateAll s rule env).session.working
        (emittedAll s.working rule env) (undecidedAll s.working rule env) := by
  have hloop : ∀ (rs : List Resource) (st : LoopState),
      st.session.working.sourceRuns = s.working.sourceRuns →
      WritesOnly isOutput st.session
          (rs.foldl (evaluateInto rule env (factsOf s.working)) st).session ∧
        Appended env.now st.session.working
          (rs.foldl (evaluateInto rule env (factsOf s.working)) st).session.working
          (rs.flatMap (emitted s.working rule env)) (rs.flatMap (undecided s.working rule env)) := by
    intro rs
    induction rs with
    | nil => exact fun st _ => ⟨WritesOnly.refl _ _, Appended.refl _ _⟩
    | cons r rs ih =>
      intro st hruns
      obtain ⟨hw, hrows⟩ := evaluateInto_spec rule env (factsOf s.working) st r
      rw [evaluateResource_congr hruns] at hrows
      have hkept := SameInventory.of_writesOnly (hw.mono isReport_of_isOutput)
      obtain ⟨hw', hrows'⟩ := ih _ (hkept.sourceRuns.trans hruns)
      exact ⟨hw.trans hw', hrows.trans hrows'⟩
  exact hloop _ ⟨s, 0, 0, []⟩ rfl

/-! ## The event log -/

/-- What the log says of an insight. -/
structure Recorded (fp : Arith) (name : String) (kind : EventKind) (p : String × InsightRow)
    (e : InsightEventRow) : Prop where
  fingerprint : e.fingerprint = p.1
  ruleName : e.ruleName = name
  resourceId : e.resourceId = p.2.resourceId
  title : e.title = p.2.title
  monthlyUsd : e.monthlyUsd = InsightEvents.monthlyCost fp name p.2.payload
  event : e.event = kind

def isEvent : Write → Bool
  | .insightEvent _ => true
  | _ => false

theorem isReport_of_isEvent (w : Write) (h : isEvent w = true) : isReport w = true := by
  cases w <;> first | rfl | cases h

/-- The loop logs every item in its turn, and nothing else. -/
theorem record_spec (fp : Arith) (name : String) (run : Uuid) (now : Micros) (kind : EventKind)
    (ps : List (String × InsightRow)) (s : DbSession) :
    WritesOnly isEvent s (ps.foldl (InsightEvents.record fp name run now kind) s) ∧
      ∃ new, (ps.foldl (InsightEvents.record fp name run now kind) s).working.insightEvents.rows =
          s.working.insightEvents.rows ++ new ∧
        List.Forall₂ (Recorded fp name kind) ps new := by
  refine ⟨WritesOnly.foldl (fun s p => WritesOnly.write s rfl) ps s, ?_⟩
  induction ps generalizing s with
  | nil => exact ⟨[], (List.append_nil _).symm, .nil⟩
  | cons p ps ih =>
    let e := InsightEvents.eventOf fp s.working name p.1 p.2 kind run now
    have he : Recorded fp name kind p e := ⟨rfl, rfl, rfl, rfl, rfl, rfl⟩
    obtain ⟨new, hrows, hnew⟩ := ih (s.write (.insightEvent e))
    have hput : (s.write (.insightEvent e)).working.insightEvents.rows =
        s.working.insightEvents.rows ++ [e] := Table.rows_put_next _ rfl
    rw [hput, List.append_assoc] at hrows
    exact ⟨e :: new, hrows, .cons he hnew⟩

theorem fingerprint_snapshotRule {t : Store} {ruleName print : String} {r : InsightRow}
    (h : (InsightEvents.snapshotRule t ruleName).get? print = some r) :
    r ∈ Insights.ofRule t ruleName ∧ InsightEvents.fingerprint r = print := by
  rcases Dict.get?_foldl_set_some h with ⟨x, hx, hk, rfl⟩ | h
  · exact ⟨hx, hk⟩
  · cases h

theorem snapshotRule_isSome {t : Store} {ruleName print : String} :
    ((InsightEvents.snapshotRule t ruleName).get? print).isSome ↔
      ∃ r ∈ Insights.ofRule t ruleName, InsightEvents.fingerprint r = print := by
  rw [InsightEvents.snapshotRule, Dict.get?_foldl_set_isSome]
  simp

theorem mem_absentFrom {t t' : Store} {ruleName : String} {p : String × InsightRow}
    (h : p ∈ InsightEvents.absentFrom (InsightEvents.snapshotRule t ruleName)
      (InsightEvents.snapshotRule t' ruleName)) :
    p.2 ∈ Insights.ofRule t ruleName ∧ InsightEvents.fingerprint p.2 = p.1 ∧
      ∀ r ∈ Insights.ofRule t' ruleName, InsightEvents.fingerprint r ≠ p.1 := by
  obtain ⟨hp, hnone⟩ := List.mem_filter.1 h
  obtain ⟨hr, hf⟩ := fingerprint_snapshotRule (Dict.mem_items.1 hp)
  refine ⟨hr, hf, fun r hr' he => ?_⟩
  have := snapshotRule_isSome.2 ⟨r, hr', he⟩
  rw [Option.isNone_iff_eq_none.1 hnone] at this
  cases this

theorem exists_absentFrom {t t' : Store} {ruleName : String} {r : InsightRow}
    (hr : r ∈ Insights.ofRule t ruleName) (hgone : ∀ r' ∈ Insights.ofRule t' ruleName,
      InsightEvents.fingerprint r' ≠ InsightEvents.fingerprint r) :
    ∃ p ∈ InsightEvents.absentFrom (InsightEvents.snapshotRule t ruleName)
      (InsightEvents.snapshotRule t' ruleName), p.1 = InsightEvents.fingerprint r := by
  obtain ⟨x, hx⟩ := Option.isSome_iff_exists.1
    (snapshotRule_isSome.2 ⟨r, hr, rfl⟩ : ((InsightEvents.snapshotRule t ruleName).get?
      (InsightEvents.fingerprint r)).isSome)
  refine ⟨(InsightEvents.fingerprint r, x), List.mem_filter.2 ⟨Dict.mem_items.2 hx, ?_⟩, rfl⟩
  rw [Option.isNone_iff_eq_none, ← Option.not_isSome_iff_eq_none, snapshotRule_isSome]
  rintro ⟨r', hr', he⟩
  exact hgone r' hr' he

/-- The events `t'` has and `t` does not. -/
def newEvents (t t' : Store) : List InsightEventRow :=
  t'.insightEvents.rows.drop t.insightEvents.rows.length

/-- A resolved event is about an insight that was stored before and has no successor. -/
structure ResolvedFrom (fp : Arith) (ruleName : String) (t t' : Store) (e : InsightEventRow)
    (r : InsightRow) : Prop where
  stored : r ∈ Insights.ofRule t ruleName
  recorded : Recorded fp ruleName .resolved (InsightEvents.fingerprint r, r) e
  gone : ∀ r' ∈ Insights.ofRule t' ruleName,
    InsightEvents.fingerprint r' ≠ InsightEvents.fingerprint r

/-- The difference of the rule's insights in `t` and in `t'`, as logged. -/
structure Logged (fp : Arith) (name : String) (t t' : Store) : Prop where
  events : t'.insightEvents.rows = t.insightEvents.rows ++ newEvents t t'
  about : ∀ e ∈ newEvents t t', e.ruleName = name
  resolved : ∀ e ∈ newEvents t t', e.event = .resolved → ∃ r, ResolvedFrom fp name t t' e r
  complete : ∀ r ∈ Insights.ofRule t name,
    (∀ r' ∈ Insights.ofRule t' name,
      InsightEvents.fingerprint r' ≠ InsightEvents.fingerprint r) →
    ∃ e ∈ newEvents t t', e.event = .resolved ∧ e.fingerprint = InsightEvents.fingerprint r

/-- The log `new` is `old` and the events of the difference of two snapshots, in order. -/
def Extends (fp : Arith) (name : String) (previous current : Dict String InsightRow)
    (old new : List InsightEventRow) : Prop :=
  ∃ new₁ new₂, new = old ++ (new₁ ++ new₂) ∧
    List.Forall₂ (Recorded fp name .appeared) (InsightEvents.absentFrom current previous) new₁ ∧
    List.Forall₂ (Recorded fp name .resolved) (InsightEvents.absentFrom previous current) new₂

theorem diffAndRecordEvents_spec (fp : Arith) (s : DbSession) (name : String)
    (previous : Dict String InsightRow) (run : Uuid) (now : Micros) :
    WritesOnly isEvent s (InsightEvents.diffAndRecordEvents fp s name previous run now) ∧
      Extends fp name previous (InsightEvents.snapshotRule s.working name)
        s.working.insightEvents.rows
        (InsightEvents.diffAndRecordEvents fp s name previous run now).working.insightEvents.rows := by
  let current := InsightEvents.snapshotRule s.working name
  let s₁ := (InsightEvents.absentFrom current previous).foldl
    (InsightEvents.record fp name run now .appeared) s
  obtain ⟨hw₁, new₁, hrows₁, hnew₁⟩ := record_spec fp name run now .appeared
    (InsightEvents.absentFrom current previous) s
  obtain ⟨hw₂, new₂, hrows₂, hnew₂⟩ := record_spec fp name run now .resolved
    (InsightEvents.absentFrom previous current) s₁
  rw [hrows₁, List.append_assoc] at hrows₂
  exact ⟨hw₁.trans hw₂, new₁, new₂, hrows₂, hnew₁, hnew₂⟩

theorem logged_of_extends {fp : Arith} {name : String} {t t' : Store}
    (h : Extends fp name (InsightEvents.snapshotRule t name) (InsightEvents.snapshotRule t' name)
      t.insightEvents.rows t'.insightEvents.rows) : Logged fp name t t' := by
  obtain ⟨new₁, new₂, hrows, hnew₁, hnew₂⟩ := h
  have hnew : newEvents t t' = new₁ ++ new₂ := by rw [newEvents, hrows, List.drop_left]
  refine ⟨by rw [hnew, hrows], ?_, ?_, ?_⟩
  · intro e he
    rw [hnew, List.mem_append] at he
    rcases he with he | he
    · obtain ⟨p, _, hp⟩ := Loop.exists_left hnew₁ he
      exact hp.ruleName
    · obtain ⟨p, _, hp⟩ := Loop.exists_left hnew₂ he
      exact hp.ruleName
  · intro e he hkind
    rw [hnew, List.mem_append] at he
    rcases he with he | he
    · obtain ⟨p, _, hp⟩ := Loop.exists_left hnew₁ he
      rw [hp.event] at hkind
      cases hkind
    · obtain ⟨⟨print, r⟩, habsent, hp⟩ := Loop.exists_left hnew₂ he
      obtain ⟨hr, hprint, hgone⟩ := mem_absentFrom habsent
      simp only at hr hprint hgone
      subst hprint
      exact ⟨r, hr, hp, hgone⟩
  · intro r hr hgone
    obtain ⟨p, habsent, hprint⟩ := exists_absentFrom hr hgone
    obtain ⟨e, he, hp⟩ := Loop.exists_right hnew₂ habsent
    refine ⟨e, ?_, hp.event, hp.fingerprint.trans hprint⟩
    rw [hnew]
    exact List.mem_append_right _ he

/-! ## The run -/

/-- The effect of a run of `rule` on the store. -/
structure RunEffect (fp : Arith) (rule : ResourceRule) (env : RunEnv) (t t' : Store) : Prop where
  inventory : SameInventory t t'
  heads : heads t' = (heads t).filter (fun h => h.1 ≠ rule.name) ++
    t.resources.rows.flatMap fun r => (emitted t rule env r).map headOf
  reasons : reasons t' = (reasons t).filter (fun r => r.1 ≠ rule.name) ++
    t.resources.rows.flatMap fun r => (undecided t rule env r).map reasonOf
  logged : Logged fp rule.name t t'

theorem SameInventory.trans {t t' t'' : Store} (h : SameInventory t t')
    (h' : SameInventory t' t'') : SameInventory t t'' where
  accounts := h'.accounts.trans h.accounts
  resources := h'.resources.trans h.resources
  observations := h'.observations.trans h.observations
  facts := h'.facts.trans h.facts
  sourceRuns := h'.sourceRuns.trans h.sourceRuns
  collectJobs := h'.collectJobs.trans h.collectJobs
  focusCharges := h'.focusCharges.trans h.focusCharges
  focusChargeTags := h'.focusChargeTags.trans h.focusChargeTags
  auditEvents := h'.auditEvents.trans h.auditEvents
  piiClassifications := h'.piiClassifications.trans h.piiClassifications

/-- An evaluation reads nothing that a rule run writes. -/
theorem emitted_congr {t t' : Store} (h : SameInventory t t') (rule : ResourceRule) (env : RunEnv)
    (r : Resource) : emitted t' rule env r = emitted t rule env r := by
  rw [emitted, emitted, evaluateResource_congr h.sourceRuns, factsOf, factsOf, h.facts]

theorem undecided_congr {t t' : Store} (h : SameInventory t t') (rule : ResourceRule)
    (env : RunEnv) (r : Resource) : undecided t' rule env r = undecided t rule env r := by
  rw [undecided, undecided, evaluateResource_congr h.sourceRuns, factsOf, factsOf, h.facts]

theorem emittedAll_congr {t t' : Store} (h : SameInventory t t') (rule : ResourceRule)
    (env : RunEnv) : emittedAll t' rule env = emittedAll t rule env ∧
      undecidedAll t' rule env = undecidedAll t rule env := by
  simp only [emittedAll, undecidedAll, h.resources]
  exact ⟨List.flatMap_congr fun r _ => emitted_congr h rule env r,
    List.flatMap_congr fun r _ => undecided_congr h rule env r⟩

theorem ruleName_of_mem_emittedAll {t : Store} {rule : ResourceRule} {env : RunEnv} {i : Insight}
    (h : i ∈ emittedAll t rule env) : i.ruleName = rule.name := by
  obtain ⟨r, _, hi⟩ := List.mem_flatMap.1 h
  exact (mem_emitted hi).1

/-- The tables a run of a rule leaves: its old rows are gone, and the new ones are at the end. -/
structure RunRows (fp : Arith) (rule : ResourceRule) (env : RunEnv) (t t' : Store) : Prop where
  insights : t'.insights.rows = (t.insights.rows.filter fun r => r.ruleName ≠ rule.name) ++
    (insightRows t.insights.next (emittedAll t rule env) env.now).map (finishedRow fp rule.name t)
  inconclusive : t'.inconclusive.rows =
    (t.inconclusive.rows.filter fun r => r.ruleName ≠ rule.name) ++
      inconclusiveRows t.inconclusive.next (undecidedAll t rule env) env.now

theorem contextualized_congr {fp : Arith} {t t' : Store} (h : SameInventory t t')
    (ruleName : String) (r : InsightRow) :
    Reconcile.contextualized fp t' ruleName r = Reconcile.contextualized fp t ruleName r := by
  simp only [Reconcile.contextualized, Reconcile.latestPeriodLines, h.resources, h.focusCharges]

/-- Contextualizing and carrying acknowledgements over rewrites the rows of the rule in place. -/
theorem rows_finished {fp : Arith} {ruleName : String} {t : Store} {s : DbSession}
    (h : SameInventory t s.working) (acks : Dict String Insights.Ack) :
    (Insights.applyAcksToRule (Reconcile.reconcileWithFocus fp s ruleName) ruleName
        acks).working.insights.rows =
      s.working.insights.rows.map fun r =>
        if r.ruleName = ruleName then
          (Insights.carried acks ((Reconcile.contextualized fp t ruleName r).getD r)).getD
            ((Reconcile.contextualized fp t ruleName r).getD r)
        else r := by
  refine (rows_ofRule_rewrite (Insights.carried acks) (fun r r' => carried_row) _ ruleName).trans ?_
  have hcontext := rows_ofRule_rewrite (Reconcile.contextualized fp s.working ruleName)
    (fun r r' => contextualized_row) s ruleName
  refine (congrArg _ hcontext).trans ?_
  rw [List.map_map]
  refine List.map_congr_left fun r _ => ?_
  simp only [Function.comp_apply, contextualized_congr h]
  by_cases hname : r.ruleName = ruleName
  · rw [if_pos hname, if_pos hname]
    cases hc : Reconcile.contextualized fp t ruleName r with
    | none => exact if_pos hname
    | some r' => exact if_pos ((congrArg (fun h : Head => h.1) (contextualized_row hc).2).trans hname)
  · rw [if_neg hname, if_neg hname, if_neg hname]

/-- The rows a rule had are cleared. -/
theorem filter_cleared {α : Type} (rows : List α) (name : α → String) (ruleName : String) :
    (rows.filter fun r => !decide (name r = ruleName)) = rows.filter fun r => name r ≠ ruleName :=
  List.filter_congr fun r _ => by rw [decide_not]

/-- Clearing, evaluating, contextualizing and carrying the acknowledgements over. -/
theorem rows_of_evaluation (fp : Arith) (s : DbSession) (rule : ResourceRule) (env : RunEnv) :
    WritesOnly isOutput s (Insights.applyAcksToRule (Reconcile.reconcileWithFocus fp
        (evaluateAll (clearOutput s rule) rule env).session rule.name) rule.name
        (Insights.snapshotAcks s.working rule.name)) ∧
      RunRows fp rule env s.working (Insights.applyAcksToRule (Reconcile.reconcileWithFocus fp
        (evaluateAll (clearOutput s rule) rule env).session rule.name) rule.name
        (Insights.snapshotAcks s.working rule.name)).working := by
  have hclear : WritesOnly isOutput s (clearOutput s rule) :=
    (WritesOnly.write s rfl).trans (WritesOnly.write _ rfl)
  have hcleared := SameInventory.of_writesOnly (hclear.mono isReport_of_isOutput)
  obtain ⟨hloop, hrows⟩ := evaluateAll_spec (clearOutput s rule) rule env
  have hinventory := SameInventory.of_writesOnly ((hclear.trans hloop).mono isReport_of_isOutput)
  obtain ⟨hemitted, hundecided⟩ := emittedAll_congr hcleared rule env
  rw [hemitted, hundecided] at hrows
  generalize (evaluateAll (clearOutput s rule) rule env).session = s₁ at *
  have hfinish : WritesOnly isInsight s₁ (Insights.applyAcksToRule
      (Reconcile.reconcileWithFocus fp s₁ rule.name) rule.name
      (Insights.snapshotAcks s.working rule.name)) :=
    (writesOnly_insights _ _).trans (writesOnly_insights _ _)
  refine ⟨(hclear.trans hloop).trans (hfinish.mono isOutput_of_isInsight), ?_, ?_⟩
  · have hbefore : s₁.working.insights.rows =
        (s.working.insights.rows.filter fun r => r.ruleName ≠ rule.name) ++
          insightRows s.working.insights.next (emittedAll s.working rule env) env.now :=
      hrows.insights.trans (congrArg (· ++ _) (filter_cleared _ InsightRow.ruleName rule.name))
    rw [rows_finished hinventory, hbefore, List.map_append]
    refine congrArg₂ (· ++ ·) ?_ ?_
    · refine (List.map_congr_left fun r hr => ?_).trans (List.map_id _)
      exact if_neg (of_decide_eq_true (List.mem_filter.1 hr).2)
    · refine List.map_congr_left fun r hr => ?_
      obtain ⟨p, hp, rfl⟩ := List.mem_map.1 hr
      exact if_pos (ruleName_of_mem_emittedAll (List.fst_mem_of_mem_zipIdx hp))
  · have hkept := hfinish.frame Store.inconclusive
      fun w hw t => by cases w <;> first | rfl | cases hw
    rw [hkept]
    exact hrows.inconclusive.trans
      (congrArg (· ++ _) (filter_cleared _ InconclusiveRow.ruleName rule.name))

theorem map_insightRows {β : Type} (g : InsightRow → β) (g' : Insight → β) (now : Micros)
    (h : ∀ id i, g (insightRow id i now) = g' i) (next : Uuid) (is : List Insight) :
    (insightRows next is now).map g = is.map g' := by
  rw [insightRows, List.map_map]
  conv => rhs; rw [← List.zipIdx_map_fst next is, List.map_map]
  exact List.map_congr_left fun p _ => h p.2 p.1

theorem map_inconclusiveRows {β : Type} (g : InconclusiveRow → β) (g' : Inconclusive → β)
    (now : Micros) (h : ∀ id i, g (inconclusiveRow id i now) = g' i) (next : Uuid)
    (is : List Inconclusive) : (inconclusiveRows next is now).map g = is.map g' := by
  rw [inconclusiveRows, List.map_map]
  conv => rhs; rw [← List.zipIdx_map_fst next is, List.map_map]
  exact List.map_congr_left fun p _ => h p.2 p.1

theorem RunRows.heads {fp : Arith} {rule : ResourceRule} {env : RunEnv} {t t' : Store}
    (h : RunRows fp rule env t t') : heads t' = (heads t).filter (fun h => h.1 ≠ rule.name) ++
      t.resources.rows.flatMap fun r => (emitted t rule env r).map headOf := by
  rw [Runner.heads, Runner.heads, h.insights, List.map_append, List.map_map, List.filter_map]
  congr 1
  rw [map_insightRows (head ∘ finishedRow fp rule.name t) headOf env.now
    (fun id i => head_finishedRow fp rule.name t _), emittedAll, List.map_flatMap]

theorem RunRows.reasons {fp : Arith} {rule : ResourceRule} {env : RunEnv} {t t' : Store}
    (h : RunRows fp rule env t t') : reasons t' = (reasons t).filter (fun r => r.1 ≠ rule.name) ++
      t.resources.rows.flatMap fun r => (undecided t rule env r).map reasonOf := by
  rw [Runner.reasons, Runner.reasons, h.inconclusive, List.map_append,
    map_inconclusiveRows reason reasonOf env.now fun _ _ => rfl, List.filter_map, undecidedAll,
    List.map_flatMap]
  rfl

theorem runResourceRule_spec (fp : Arith) (rule : ResourceRule) (env : RunEnv) (s : DbSession) :
    RunEffect fp rule env s.working (runResourceRule fp rule env s).1.working ∧
      RunRows fp rule env s.working (runResourceRule fp rule env s).1.working ∧
      (runResourceRule fp rule env s).1.pending = [] := by
  let run := newInsightRun s.working rule.name env.now
  let s₁ := beginRun s rule env
  let loop := evaluateAll (clearOutput s₁ rule) rule env
  let s₃ := Insights.applyAcksToRule (Reconcile.reconcileWithFocus fp loop.session rule.name)
    rule.name (Insights.snapshotAcks s₁.working rule.name)
  have hbegin : WritesOnly isReport s (s.write (.insightRun run)) := WritesOnly.write s rfl
  have hwritten := SameInventory.of_writesOnly hbegin
  have hinventory : SameInventory s.working s₁.working := hwritten
  have hout : WritesOnly isOutput s₁ s₃ := (rows_of_evaluation fp s₁ rule env).1
  have hrows₃ : RunRows fp rule env s₁.working s₃.working := (rows_of_evaluation fp s₁ rule env).2
  obtain ⟨hdiff, hlog⟩ := diffAndRecordEvents_spec fp s₃
    rule.name (InsightEvents.snapshotRule s₁.working rule.name) run.id env.now
  have hend := WritesOnly.write (p := isReport) (InsightEvents.diffAndRecordEvents fp s₃ rule.name
    (InsightEvents.snapshotRule s₁.working rule.name) run.id env.now) (w := .insightRun
      (finishedRun run s₁.working.resources.rows.length loop.insightsEmitted loop.errors env.now))
    rfl
  have hall := ((hout.mono isReport_of_isOutput).trans (hdiff.mono isReport_of_isEvent)).trans hend
  have hrest := SameInventory.of_writesOnly hall
  have hinsights : (runResourceRule fp rule env s).1.working.insights = s₃.working.insights :=
    hdiff.frame Store.insights fun w hw t => by cases w <;> first | rfl | cases hw
  have hinconclusive : (runResourceRule fp rule env s).1.working.inconclusive =
      s₃.working.inconclusive :=
    hdiff.frame Store.inconclusive fun w hw t => by cases w <;> first | rfl | cases hw
  have hsnapshot : InsightEvents.snapshotRule s₃.working rule.name =
      InsightEvents.snapshotRule (runResourceRule fp rule env s).1.working rule.name := by
    rw [InsightEvents.snapshotRule, InsightEvents.snapshotRule, Insights.ofRule, Insights.ofRule,
      hinsights]
  rw [hsnapshot, events_of_writesOnly hout] at hlog
  have hrunRows : RunRows fp rule env s.working (runResourceRule fp rule env s).1.working := by
    obtain ⟨hemitted, hundecided⟩ := emittedAll_congr hinventory rule env
    have hold : s₁.working.insights = s.working.insights := rfl
    have hold' : s₁.working.inconclusive = s.working.inconclusive := rfl
    have hfinished : finishedRow fp rule.name s₁.working = finishedRow fp rule.name s.working := by
      funext r
      simp only [finishedRow, contextualized_congr hinventory, Insights.snapshotAcks,
        Insights.ofRule, hold]
    refine ⟨?_, ?_⟩
    · rw [hinsights, hrows₃.insights, hemitted, hfinished, hold]
    · rw [hinconclusive, hrows₃.inconclusive, hundecided, hold']
  exact ⟨⟨SameInventory.trans hinventory hrest, hrunRows.heads, hrunRows.reasons,
    logged_of_extends hlog⟩, hrunRows, rfl⟩

namespace RunEffect

variable {fp : Arith} {rule : ResourceRule} {env : RunEnv} {t t' : Store}

/-- Every insight of the rule that is stored after the run was emitted by it. -/
theorem stored (h : RunEffect fp rule env t t') {r : InsightRow}
    (hr : r ∈ Insights.ofRule t' rule.name) :
    ∃ x ∈ t.resources, ∃ i ∈ emitted t rule env x, headOf i = head r := by
  obtain ⟨hmem, hname⟩ := List.mem_filter.1 hr
  have hh : head r ∈ Runner.heads t' := mem_heads.2 ⟨r, hmem, rfl⟩
  rw [h.heads, List.mem_append] at hh
  rcases hh with hh | hh
  · exact absurd (of_decide_eq_true hname) (of_decide_eq_true (List.mem_filter.1 hh).2)
  · obtain ⟨x, hx, hh⟩ := List.mem_flatMap.1 hh
    obtain ⟨i, hi, he⟩ := List.mem_map.1 hh
    exact ⟨x, hx, i, hi, he⟩

/-- Every insight the run emits is stored. -/
theorem inserted (h : RunEffect fp rule env t t') {x : Resource} (hx : x ∈ t.resources)
    {i : Insight} (hi : i ∈ emitted t rule env x) :
    ∃ r ∈ Insights.ofRule t' rule.name, head r = headOf i := by
  have hh : headOf i ∈ Runner.heads t' := by
    rw [h.heads]
    exact List.mem_append_right _ (List.mem_flatMap.2 ⟨x, hx, List.mem_map.2 ⟨i, hi, rfl⟩⟩)
  obtain ⟨r, hr, he⟩ := mem_heads.1 hh
  have hname : r.ruleName = rule.name := (congrArg Prod.fst he).trans (mem_emitted hi).1
  exact ⟨r, List.mem_filter.2 ⟨hr, decide_eq_true hname⟩, he⟩

/-- Every resource the run leaves undecided is on record, with what is missing. -/
theorem recorded (h : RunEffect fp rule env t t') {x : Resource} (hx : x ∈ t.resources)
    {i : Inconclusive} (hi : i ∈ undecided t rule env x) :
    ∃ row ∈ t'.inconclusive, reason row = reasonOf i := by
  have hr : reasonOf i ∈ Runner.reasons t' := by
    rw [h.reasons]
    exact List.mem_append_right _ (List.mem_flatMap.2 ⟨x, hx, List.mem_map.2 ⟨i, hi, rfl⟩⟩)
  exact List.mem_map.1 hr

/-- A resource has an insight after the run exactly when the run emits one for it. -/
theorem about_iff (h : RunEffect fp rule env t t') {x : Resource} (hx : x ∈ t.resources) :
    (∃ r ∈ Insights.ofRule t' rule.name, r.resourceId = some x.id) ↔
      ∃ i, i ∈ emitted t rule env x := by
  constructor
  · rintro ⟨r, hr, hid⟩
    obtain ⟨y, hy, i, hi, hhead⟩ := h.stored hr
    have hsame : y = x := by
      refine Table.eq_of_key hy hx (Option.some.inj ?_)
      rw [← (mem_emitted hi).2, ← hid]
      exact congrArg (fun hd : Head => hd.2.1) hhead
    exact ⟨i, hsame ▸ hi⟩
  · rintro ⟨i, hi⟩
    obtain ⟨r, hr, hhead⟩ := h.inserted hx hi
    refine ⟨r, hr, ?_⟩
    rw [← (mem_emitted hi).2]
    exact congrArg (fun hd : Head => hd.2.1) hhead

/-- A resource has an inconclusive record after the run exactly when the run leaves it undecided. -/
theorem recordedAbout_iff (h : RunEffect fp rule env t t') {x : Resource} (hx : x ∈ t.resources) :
    (∃ row ∈ t'.inconclusive, row.ruleName = rule.name ∧ row.resourceId = some x.id) ↔
      ∃ i, i ∈ undecided t rule env x := by
  constructor
  · rintro ⟨row, hrow, hname, hid⟩
    have hr : reason row ∈ Runner.reasons t' := List.mem_map_of_mem hrow
    rw [h.reasons, List.mem_append] at hr
    rcases hr with hr | hr
    · exact absurd hname (of_decide_eq_true (List.mem_filter.1 hr).2)
    · obtain ⟨y, hy, hr⟩ := List.mem_flatMap.1 hr
      obtain ⟨i, hi, he⟩ := List.mem_map.1 hr
      have hsame : y = x := by
        refine Table.eq_of_key hy hx (Option.some.inj ?_)
        rw [← (mem_undecided hi).2, ← hid]
        exact congrArg (fun r : Reason => r.2.1) he
      exact ⟨i, hsame ▸ hi⟩
  · rintro ⟨i, hi⟩
    obtain ⟨row, hrow, he⟩ := h.recorded hx hi
    obtain ⟨hname, hid⟩ := mem_undecided hi
    exact ⟨row, hrow, (congrArg (fun r : Reason => r.1) he).trans hname,
      (congrArg (fun r : Reason => r.2.1) he).trans hid⟩

end RunEffect

end Runner

end Constat
