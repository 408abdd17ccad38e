import Constat.CollectInvariants
import Constat.NewestSource
import Constat.Noninterference
import Constat.ReplayRun
import Constat.StoppedStorage
import Constat.Rules.Views
import Constat.RuleRun

/-!
# Evidence

From what AWS says of a database to what the three end-of-life rules say of it. Observations, facts
and insights are three tables that different functions write; after any history of collections the
verdict on a database is the one on its last observation, read back as `db_to_facts` reads an item.

* `lastSeen`   — the last RDS observation of a resource.
* `described`  — the facts of the item that an observation holds.
* `evaluate_described` — an end-of-life rule reads no more of a database than its last observation.
* `verdict_of_last_observation` — what a run stores about a database.
-/

namespace Constat

namespace Evidence

open Collectors Facts FactIndex ReplayFacts Runner
open Collector (Sound)

/-! ## The last observation -/

def lastSeen (t : Store) (id : Uuid) : Option ObservationRow :=
  (t.observations.rows.filter fun o => o.source = Rds.sourceName ∧ o.resourceId = id).getLast?

def described (x : Resource) (o : ObservationRow) : List Fact :=
  Rds.dbToFacts x.id x.accountId (payloadToDb (payloadOf o.payload) x.region) o.observedAt

section

variable {t : Store} {x : Resource} {o : ObservationRow}

theorem described_owned (x : Resource) (o : ObservationRow) :
    (∀ f ∈ described x o, f.resourceId = some x.id ∧ f.accountId = some x.accountId) ∧
      ((described x o).map keyOf).Nodup :=
  @Collector.job_facts_owned Collector.rds List.mem_cons_self x.id x.accountId _ _

theorem described_named : ∀ f ∈ described x o,
    f.namespaceName = "aws.rds" ∧ f.source = Rds.sourceName := by
  simp [described, Rds.dbToFacts, makeFact]

theorem described_gates : ∀ key ∈ Eol.gates, ∃ f ∈ described x o, f.dotted = key := by
  have hdotted : (described x o).map Fact.dotted = ["aws.rds.engine", "aws.rds.engine_version",
      "aws.rds.instance_class", "aws.rds.vcpu", "aws.rds.region"] := rfl
  intro key hkey
  have hmem : key ∈ (described x o).map Fact.dotted := by
    rw [hdotted]
    exact (by decide : ∀ key ∈ Eol.gates, key ∈ ["aws.rds.engine", "aws.rds.engine_version",
      "aws.rds.instance_class", "aws.rds.vcpu", "aws.rds.region"]) key hkey
  exact List.mem_map.1 hmem

/-- The log of the observations ends, for the facts of a database, with its last one. -/
theorem latest_described (hx : x ∈ t.resources) (ho : lastSeen t x.id = some o) {f : Fact}
    (hf : f ∈ described x o) : Latest.latest (log t.resources t.observations.rows) (keyOf f) =
      some ⟨f.value, f.valueState, f.observedAt, o.sourceRunId⟩ := by
  let p : ObservationRow → Bool := fun o => o.source = Rds.sourceName ∧ o.resourceId = x.id
  obtain ⟨init, hinit⟩ := List.getLast?_eq_some_iff.1 ho
  have hlast : o ∈ t.observations.rows.filter p := by
    rw [hinit]
    exact List.mem_append_right _ List.mem_cons_self
  obtain ⟨hsource, hid⟩ := of_decide_eq_true (List.mem_filter.1 hlast).2
  have hget : t.resources.get? o.resourceId = some x := Table.get?_eq_some.2 ⟨hx, hid.symm⟩
  have hentries : entriesOf t.resources o = entries (described x o) o.sourceRunId := by
    rw [entriesOf, translate_found hsource hget, hid]
    rfl
  have hother : ∀ o' ∈ t.observations.rows, p o' = false → ∀ e ∈ entriesOf t.resources o',
      e.1 ≠ keyOf f := by
    intro o' _ ho' e he hkey
    obtain ⟨hsource', habout⟩ := entriesOf_about he
    rw [hkey] at habout
    have hid' : some x.id = some o'.resourceId :=
      ((described_owned x o).1 f hf).1.symm.trans habout
    exact of_decide_eq_false ho' ⟨hsource', (Option.some.inj hid').symm⟩
  have hentry : (keyOf f, ⟨f.value, f.valueState, f.observedAt, o.sourceRunId⟩) ∈
      entries (described x o) o.sourceRunId := List.mem_map.2 ⟨f, hf, rfl⟩
  have hkeys : ((entries (described x o) o.sourceRunId).map Prod.fst).Nodup := by
    rw [fst_entries]
    exact (described_owned x o).2
  have hsplit : (t.observations.rows.filter p).flatMap (entriesOf t.resources) =
      init.flatMap (entriesOf t.resources) ++ entries (described x o) o.sourceRunId := by
    have hrows : t.observations.rows.filter p = init ++ [o] := hinit
    rw [hrows, List.flatMap_append, List.flatMap_singleton, hentries]
  calc Latest.latest (log t.resources t.observations.rows) (keyOf f)
      = Latest.latest ((t.observations.rows.filter p).flatMap (entriesOf t.resources)) (keyOf f) :=
        (Latest.latest_flatMap_filter hother).symm
    _ = some ⟨f.value, f.valueState, f.observedAt, o.sourceRunId⟩ := by
        rw [hsplit, Latest.latest_append, Latest.latest_eq_some hkeys hentry]
        rfl

/-- The row of a described fact, in a store whose facts show its observations. -/
theorem exists_row (hfaithful : Faithful t) (hsound : Sound t) (hx : x ∈ t.resources)
    (ho : lastSeen t x.id = some o) {f : Fact} (hf : f ∈ described x o) :
    ∃ row, RowAt t.facts (keyOf f) (some row) ∧ viewOf (toFact row) = viewOf f := by
  obtain ⟨row?, hrow, hshown⟩ := hfaithful.shows (keyOf f) (described_named f hf).2
  rw [latest_described hx ho hf] at hshown
  cases row? with
  | none => cases hshown
  | some row =>
    refine ⟨row, hrow, ?_⟩
    obtain ⟨hmem, hkey⟩ := (hrow row).2 rfl
    have hname : row.namespaceName = "aws.rds" :=
      (congrArg FactKey.namespaceName hkey).trans (described_named f hf).1
    have hid : row.resourceId = some x.id :=
      (congrArg FactKey.resourceId hkey).trans ((described_owned x o).1 f hf).1
    have haccount : row.accountId = f.accountId := by
      rcases hsound.rooted row hmem with hec2 | ⟨_, _, r, hr, hrid, hracc⟩
      · rw [hname] at hec2
        exact absurd hec2 (by decide)
      · have hsame : r = x := Table.eq_of_key hr hx (Option.some.inj (hrid.symm.trans hid))
        rw [hracc, hsame, ((described_owned x o).1 f hf).2]
    have hvalue : shown row = ⟨f.value, f.valueState, f.observedAt, o.sourceRunId⟩ :=
      Option.some.inj hshown
    have hvalues := congrArg Shown.value hvalue
    have hstates := congrArg Shown.state hvalue
    simp only [viewOf, View.mk.injEq]
    exact ⟨hvalues, hstates, haccount⟩

theorem dotted_inj {k k' : String} (h : "aws.rds" ++ "." ++ k = "aws.rds" ++ "." ++ k') :
    k = k' := by
  have htext := congrArg String.toList h
  simp only [String.toList_append] at htext
  exact String.toList_inj.1 (List.append_cancel_left htext)

theorem ne_ec2 {name k k' : String} (hname : name ∈ Collector.ec2Namespaces) :
    name ++ "." ++ k ≠ "aws.rds" ++ "." ++ k' := by
  intro h
  have htext := congrArg (fun s => s.toList.take 5) h
  simp only [Collector.ec2Namespaces, List.mem_cons, List.not_mem_nil, or_false] at hname
  rcases hname with rfl | rfl | rfl <;> simp [String.toList_append] at htext

/-- What the facts of a database show under a key is what its last observation describes. -/
theorem view_factsOf (hfaithful : Faithful t) (hsound : Sound t) (hx : x ∈ t.resources)
    (ho : lastSeen t x.id = some o) {f : Fact} (hf : f ∈ described x o) :
    (indexFacts (factsOf t x.id)).view f.dotted = some (viewOf f) := by
  obtain ⟨row, hrow, hview⟩ := exists_row hfaithful hsound hx ho hf
  obtain ⟨hmem, hkey⟩ := (hrow row).2 rfl
  have hnamed := described_named f hf
  have hdotted : (toFact row).dotted = f.dotted := by
    have hname := congrArg FactKey.namespaceName hkey
    have hkey' := congrArg FactKey.key hkey
    simp only [keyOfRow, keyOf] at hname hkey'
    simp only [Fact.dotted, toFact, hname, hkey']
  have hfact : toFact row ∈ factsOf t x.id := by
    refine List.mem_map.2 ⟨row, (List.mem_insertionSort _).2 (List.mem_filter.2 ⟨hmem, ?_⟩), rfl⟩
    exact decide_eq_true ((congrArg FactKey.resourceId hkey).trans
      ((described_owned x o).1 f hf).1)
  have hone : ∀ g ∈ factsOf t x.id, g.dotted = (toFact row).dotted → g = toFact row := by
    intro g hg hsame
    obtain ⟨row', hrow', rfl⟩ := List.mem_map.1 hg
    obtain ⟨hmem', hid'⟩ := List.mem_filter.1 ((List.mem_insertionSort _).1 hrow')
    have hid : row'.resourceId = some x.id := of_decide_eq_true hid'
    have hdots : row'.namespaceName ++ "." ++ row'.key = "aws.rds" ++ "." ++ f.key := by
      have htext := hsame.trans hdotted
      simpa only [Fact.dotted, toFact, hnamed.1] using htext
    rcases hsound.rooted row' hmem' with hec2 | ⟨hname, hsource, _⟩
    · exact absurd hdots (ne_ec2 hec2)
    · rw [hname] at hdots
      have hkeys : keyOfRow row' = keyOf f := by
        simp only [keyOfRow, keyOf, FactKey.mk.injEq]
        exact ⟨hid.trans ((described_owned x o).1 f hf).1.symm, hname.trans hnamed.1.symm,
          dotted_inj hdots, hsource.trans hnamed.2.symm⟩
      exact congrArg toFact (Option.some.inj ((hrow row').1 ⟨hmem', hkeys⟩)).symm
  rw [view, ← hdotted, get?_indexFacts hfact hone]
  exact congrArg some hview

theorem view_described {f : Fact} (hf : f ∈ described x o) :
    (indexFacts (described x o)).view f.dotted = some (viewOf f) := by
  rw [view, get?_indexFacts hf fun g hg hsame => ?_]
  · rfl
  · have hkey : g.key = f.key := by
      refine dotted_inj ?_
      simpa only [Fact.dotted, (described_named g hg).1, (described_named f hf).1] using hsame
    refine List.inj_on_of_nodup_map (described_owned x o).2 hg hf ?_
    simp only [keyOf, FactKey.mk.injEq]
    exact ⟨((described_owned x o).1 g hg).1.trans ((described_owned x o).1 f hf).1.symm,
      (described_named g hg).1.trans (described_named f hf).1.symm, hkey,
      (described_named g hg).2.trans (described_named f hf).2.symm⟩

theorem evaluate_described (hfaithful : Faithful t) (hsound : Sound t) (hx : x ∈ t.resources)
    (ho : lastSeen t x.id = some o) (fp : Arith) (config : Eol.EolRuleConfig) (env : RunEnv) :
    evaluateResource t x (Eol.rule fp config) env (factsOf t x.id) =
      evaluateResource t x (Eol.rule fp config) env (described x o) := by
  have hsame : SameUnder Eol.gates (indexFacts (factsOf t x.id)) (indexFacts (described x o)) := by
    intro key hkey
    obtain ⟨f, hf, rfl⟩ := described_gates (x := x) (o := o) key hkey
    rw [view_factsOf hfaithful hsound hx ho hf, view_described hf]
  have hfacts : (factsOf t x.id).isEmpty = false := by
    obtain ⟨f, hf, _⟩ := described_gates (x := x) (o := o) "aws.rds.engine" List.mem_cons_self
    have hview := view_factsOf hfaithful hsound hx ho hf
    rw [List.isEmpty_eq_false_iff]
    intro hnil
    rw [hnil] at hview
    cases hview
  have hdescribed : (described x o).isEmpty = false := rfl
  unfold evaluateResource
  rw [hfacts, hdescribed, Eol.readsUnder_gates fp config x.id _ _ env.today hsame]

end

/-! ## The verdict -/

theorem filter_id {t : Store} {x : Resource} (hx : x ∈ t.resources) :
    t.resources.rows.filter (fun y => y.id = x.id) = [x] := by
  refine List.perm_singleton.1 ((List.perm_ext_iff_of_nodup ?_ (List.nodup_singleton x)).2 ?_)
  · exact (List.Nodup.of_map Resource.id t.resources.nodup).filter _
  · intro y
    rw [List.mem_filter, List.mem_singleton, decide_eq_true_eq]
    constructor
    · rintro ⟨hy, hid⟩
      exact Table.eq_of_key hy hx hid
    · rintro rfl
      exact ⟨hx, rfl⟩

section

variable {fp : Arith} {rule : ResourceRule} {env : RunEnv} {t t' : Store} {x : Resource}

/-- The insights of the rule about a resource are those that the run has emitted about it. -/
theorem insights_about (h : RunRows fp rule env t t') (hx : x ∈ t.resources) :
    (ruleInsights rule.name t').filter (fun r => r.resourceId = some x.id) =
      (emitted t rule env x).map (storedInsight fp rule.name t env.now) := by
  have hresource : ∀ i, (storedInsight fp rule.name t env.now i).resourceId = i.resourceId :=
    fun i => congrArg (fun hd : Head => hd.2.1) (head_finishedRow fp rule.name t _)
  rw [h.ruleInsights, List.filter_map, emittedAll, filter_flatMap_of, filter_id hx,
    List.flatMap_singleton]
  intro y _ i hi
  simp [hresource, (mem_emitted hi).2]

/-- The records of the rule about a resource are those that the run has left about it. -/
theorem inconclusive_about (h : RunRows fp rule env t t') (hx : x ∈ t.resources) :
    (ruleInconclusive rule.name t').filter (fun r => r.resourceId = some x.id) =
      (undecided t rule env x).map fun i => inconclusiveRow 0 i env.now := by
  rw [h.ruleInconclusive, List.filter_map, undecidedAll, filter_flatMap_of, filter_id hx,
    List.flatMap_singleton]
  intro y _ i hi
  have hid : (inconclusiveRow 0 i env.now).resourceId = some y.id := (mem_undecided hi).2
  simp [hid]

end

/-- The rule says of a database what it says of its last observation, and a run of it stores just
that of it: each row with all its fields but the id. -/
structure Explained (fp : Arith) (rule : ResourceRule) (env : RunEnv) (t : Store) (x : Resource)
    (o : ObservationRow) : Prop where
  verdict : evaluateResource t x rule env (factsOf t x.id) =
    evaluateResource t x rule env (described x o)
  insights : (ruleInsights rule.name (runResourceRule fp rule env (.begin t)).1.close).filter
      (fun r => r.resourceId = some x.id) =
    (output (evaluateResource t x rule env (described x o))).1.map
      (storedInsight fp rule.name t env.now)
  inconclusive : (ruleInconclusive rule.name (runResourceRule fp rule env (.begin t)).1.close).filter
      (fun r => r.resourceId = some x.id) =
    (output (evaluateResource t x rule env (described x o))).2.map
      fun i => inconclusiveRow 0 i env.now

theorem verdict_of_last_observation (fp : Arith) (config : Eol.EolRuleConfig) (env : RunEnv)
    (calls : List ScanCall) {x : Resource} {o : ObservationRow}
    (hx : x ∈ (history calls .empty).resources)
    (ho : lastSeen (history calls .empty) x.id = some o) :
    Explained fp (Eol.rule fp config) env (history calls .empty) x o := by
  have hempty : Unobserved Store.empty :=
    ⟨fun _ h => absurd h (Table.not_mem_empty _), fun _ h => absurd h (Table.not_mem_empty _)⟩
  have hfaithful := faithful_history calls hempty.faithful
  have hsound : Sound (history calls .empty) :=
    Collector.kept_sound.history calls Collector.sound_empty
  have hsame := evaluate_described hfaithful hsound hx ho fp config env
  obtain ⟨_, hrows, hpending⟩ :=
    runResourceRule_spec fp (Eol.rule fp config) env (.begin (history calls .empty))
  rw [Session.begin_working] at hrows
  have hclose : (runResourceRule fp (Eol.rule fp config) env (.begin (history calls .empty))).1.close =
      (runResourceRule fp (Eol.rule fp config) env (.begin (history calls .empty))).1.working :=
    (Session.working_of_pending_nil hpending).symm
  refine ⟨hsame, ?_, ?_⟩
  · rw [hclose, insights_about hrows hx, emitted, hsame]
  · rw [hclose, inconclusive_about hrows hx, undecided, hsame]

/-- The database that is at version 16.3 when it is last seen. -/
theorem upgrade_explained : ∃ x o, x ∈ (history upgrade .empty).resources ∧
    lastSeen (history upgrade .empty) x.id = some o ∧ o.observedAt = 22 ∧
      Explained .double (Eol.rule .double Eol.rdsEol) ⟨40, .ofYmd 2026 7 18, some 100⟩
        (history upgrade .empty) x o := by
  have hresource : ∃ x ∈ (history upgrade .empty).resources, x.id = 0 := by decide +kernel
  have hlast : (lastSeen (history upgrade .empty) 0).map (·.observedAt) = some 22 := by
    decide +kernel
  obtain ⟨x, hx, hid⟩ := hresource
  obtain ⟨o, ho, hat⟩ := Option.map_eq_some_iff.1 hlast
  rw [← hid] at ho
  exact ⟨x, o, hx, ho, hat, verdict_of_last_observation .double Eol.rdsEol _ upgrade hx ho⟩

end Evidence

end Constat
