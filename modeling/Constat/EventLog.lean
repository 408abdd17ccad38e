import Constat.History
import Constat.Lib.Presence
import Constat.RunFailures

/-!
# EventLog

The event log over any sequence of rule runs, the ones that raise included. A run compares the
fingerprints its rule had before with those it has left, and appends the difference; a run that
raises is rolled back with its events.

* `Diffed`  — what a run that returns does to the insights and to the log.
* `Reached` — the stores reached from one without insights and events, by runs and by what leaves
  the identities of the insights and the log alone.

So the log tells the history of the stored fingerprints, rule by rule (`tells_of_reached`). Two
rules share no fingerprint as long as SHA-256 tells apart the texts that the log has hashed.
-/

namespace Constat

open Session (WritesOnly)
open Runner RunFailures

namespace EventLog

/-! ## One run -/

/-- What a run of the rule `name` that returns does to the insights and to the log. -/
structure Diffed (fp : Arith) (name : String) (t t' : Store) : Prop where
  others : ∀ h : Head, h.1 ≠ name → (h ∈ heads t' ↔ h ∈ heads t)
  log : Extends fp name (InsightEvents.snapshotRule t name) (InsightEvents.snapshotRule t' name)
    t.insightEvents.rows t'.insightEvents.rows

/-- The identities of the insights, and the log, are as they were. -/
structure Unchanged (t t' : Store) : Prop where
  heads : heads t' = heads t
  events : t'.insightEvents = t.insightEvents

theorem Unchanged.trans {t t' t'' : Store} (h : Unchanged t t') (h' : Unchanged t' t'') :
    Unchanged t t'' := ⟨h'.heads.trans h.heads, h'.events.trans h.events⟩

theorem snapshotRule_congr {t t' : Store} (h : t'.insights = t.insights) (name : String) :
    InsightEvents.snapshotRule t' name = InsightEvents.snapshotRule t name := by
  rw [InsightEvents.snapshotRule, InsightEvents.snapshotRule, Insights.ofRule, Insights.ofRule, h]

/-- Rewriting the rows of a rule in place changes no identity. -/
theorem unchanged_rewrite (f : InsightRow → Option InsightRow)
    (hf : ∀ r r', f r = some r' → r'.id = r.id ∧ head r' = head r) (s : DbSession)
    (name : String) : Unchanged s.working
      (s.writes (((Insights.ofRule s.working name).filterMap f).map .insight)).working := by
  constructor
  · rw [heads, rows_ofRule_rewrite f hf, List.map_map, heads]
    refine List.map_congr_left fun r _ => ?_
    rw [Function.comp_apply]
    split
    · cases hr : f r with
      | none => rfl
      | some r' => exact (hf r r' hr).2
    · rfl
  · exact events_of_writesOnly ((writesOnly_insights s _).mono isOutput_of_isInsight)

/-- The loop over the subjects of a rule, once its old insights are deleted. -/
theorem others_of_adds {name : String} {now : Micros} {t : Store} {s s' : DbSession}
    (hcleared : s.working.insights.rows = t.insights.rows.filter fun r => !decide (r.ruleName = name))
    (hadds : Adds name now s s') (h : Head) (hname : h.1 ≠ name) :
    h ∈ heads s'.working ↔ h ∈ heads t := by
  obtain ⟨_, is, _, hrows, his⟩ := hadds
  have hnew : h ∉ (insightRows s.working.insights.next is now).map head := by
    rw [map_insightRows head headOf now (fun _ _ => rfl)]
    intro hmem
    obtain ⟨i, hi, rfl⟩ := List.mem_map.1 hmem
    exact hname (his i hi)
  rw [heads, hrows.insights, hcleared, List.map_append, List.mem_append, or_iff_left hnew, heads]
  constructor
  · intro hmem
    obtain ⟨r, hr, rfl⟩ := List.mem_map.1 hmem
    exact List.mem_map_of_mem (List.mem_of_mem_filter hr)
  · intro hmem
    obtain ⟨r, hr, rfl⟩ := List.mem_map.1 hmem
    have hother : r.ruleName ≠ name := hname
    exact List.mem_map_of_mem (List.mem_filter.2 ⟨hr, by simp [hother]⟩)

/-- The difference is logged last: against the store `t` the run began with. -/
theorem diffed_of_steps {fp : Arith} {name : String} {now : Micros} {t t' : Store} {run : Uuid}
    {s s' u : DbSession}
    (hcleared : s.working.insights.rows = t.insights.rows.filter fun r => !decide (r.ruleName = name))
    (hevents : s.working.insightEvents = t.insightEvents) (hadds : Adds name now s s')
    (hkept : Unchanged s'.working u.working)
    (hlast : t'.insights = (InsightEvents.diffAndRecordEvents fp u name
      (InsightEvents.snapshotRule t name) run now).working.insights)
    (hlast' : t'.insightEvents = (InsightEvents.diffAndRecordEvents fp u name
      (InsightEvents.snapshotRule t name) run now).working.insightEvents) :
    Diffed fp name t t' := by
  obtain ⟨hwrites, hlog⟩ := diffAndRecordEvents_spec fp u name (InsightEvents.snapshotRule t name)
    run now
  have hsame : t'.insights = u.working.insights := hlast.trans
    (hwrites.frame Store.insights fun w hw t => by cases w <;> first | rfl | cases hw)
  constructor
  · intro h hname
    rw [heads, hsame, ← heads, hkept.heads]
    exact others_of_adds hcleared hadds h hname
  · rw [hkept.events, events_of_writesOnly hadds.writes, hevents] at hlog
    rw [hlast', snapshotRule_congr hsame]
    exact hlog

/-- How a run ends: it returns, everything committed, or it raises and only the row of the run is
there. -/
def Ran (fp : Arith) (name : String) (t : Store) (out : DbSession × Option PyError) : Prop :=
  (out.2 = none ∧ ∃ s : DbSession, out.1 = s.commit ∧ Diffed fp name t s.working) ∨
    (out.2 ≠ none ∧ Unchanged t out.1.committed)

section

variable {α β : Type} {plan : Plan} {before : List Stage} {loop : DbSession → Looped α}
  {after : Looped α → List Stage} {last : Looped α → DbSession → DbSession} {s : DbSession}

theorem ran_of_conduct {fp : Arith} {name : String} {t : Store} {f : α → β}
    (hs : Unchanged t s.committed) (hbefore : Pending before)
    (hloop : ∀ s, (loop s).session.committed = s.committed)
    (hafter : ∀ looped, Pending (after looped))
    (hlast : ∀ looped s, (last looped s).committed = s.committed)
    (hdiff : let looped := loopAfter before loop s;
      Diffed fp name t
        (last looped ((after looped).foldl (fun s st => st.2 s) looped.session)).working) :
    Ran fp name t ((conduct plan before loop after last s).1,
      raised ((conduct plan before loop after last s).2.map f)) := by
  by_cases h : Survives plan before loop after s
  · have hrun := conduct_of_survives last h
    exact .inl ⟨by rw [hrun]; rfl, _, by rw [hrun], hdiff⟩
  · obtain ⟨e, herror, hcommitted⟩ := conduct_of_not_survives last h hbefore hloop hafter hlast
    refine .inr ⟨?_, ?_⟩
    · rw [herror]
      exact nofun
    · rw [hcommitted]
      exact hs

end

theorem ran_resource {plan : Plan} {fp : Arith} {rule : ResourceRule} {env : RunEnv}
    (s : DbSession) (hbegin : plan.stage .begin = none) :
    Ran fp rule.name s.working (runUnder plan fp s (.resource rule env)) := by
  let run := newInsightRun s.working rule.name env.now
  let s₁ := beginRun s rule env
  have hafter := body_resourceAfter fp rule env run s₁.working
  simp only [runUnder, runResourceRuleUnder, hbegin]
  refine ran_of_conduct ⟨rfl, rfl⟩ (body_resourceBefore rule).pending
    (fun s => (evaluateAllUnder_writes plan rule env s).committed) (fun _ => hafter.pending)
    (fun _ _ => rfl) ?_
  refine diffed_of_steps (s := clearOutput s₁ rule) rfl rfl (adds_evaluateAll plan rule env _) ?_
    rfl rfl
  exact (unchanged_rewrite _ (fun r r' => contextualized_row) _ _).trans
    (unchanged_rewrite _ (fun r r' => carried_row) _ _)

theorem ran_chargeback {plan : Plan} {fp : Arith} {env : Chargeback.Env} (s : DbSession)
    (hbegin : plan.stage .begin = none) :
    Ran fp "chargeback" s.working (runUnder plan fp s (.chargeback env)) := by
  let run := newInsightRun s.working "chargeback" env.now
  let s₁ : DbSession := (s.write (.insightRun run)).commit
  simp only [runUnder, runChargebackUnder, hbegin]
  refine ran_of_conduct ⟨rfl, rfl⟩ body_chargebackBefore.pending
    (fun s => (addAccountsUnder_writes plan fp env s).committed)
    (pending_chargebackAfter fp env run _ s₁.working) (fun _ _ => rfl) ?_
  refine diffed_of_steps (s := Insights.deleteInsightsForRule s₁ "chargeback") rfl rfl
    (adds_addAccounts plan fp env _) ?_ rfl rfl
  have hrow : ∀ (u : DbSession) (row : InsightRunRow),
      Unchanged u.working (u.write (.insightRun row)).working := fun _ _ => ⟨rfl, rfl⟩
  exact (hrow _ _).trans (unchanged_rewrite _ (fun r r' => carried_row) _ _)

/-- The runs of the runner return. -/
theorem diffed_of_ran {fp : Arith} {name : String} {t : Store} {out : DbSession × Option PyError}
    (h : Ran fp name t out) (hnone : out.2 = none) : Diffed fp name t out.1.working := by
  rcases h with ⟨_, s, hcommit, hdiff⟩ | ⟨hraised, _⟩
  · rw [hcommit, Session.commit_working]
    exact hdiff
  · exact absurd hnone hraised

theorem diffed_runResourceRule (fp : Arith) (rule : ResourceRule) (env : RunEnv) (s : DbSession) :
    Diffed fp rule.name s.working (runResourceRule fp rule env s).1.working := by
  have h : Ran fp rule.name s.working (runUnder .clean fp s (.resource rule env)) :=
    ran_resource s rfl
  simp only [runUnder, runResourceRuleUnder_clean] at h
  exact diffed_of_ran h rfl

theorem diffed_runChargeback (fp : Arith) (env : Chargeback.Env) (s : DbSession) :
    Diffed fp "chargeback" s.working (Chargeback.runChargeback fp env s).1.working := by
  have h : Ran fp "chargeback" s.working (runUnder .clean fp s (.chargeback env)) :=
    ran_chargeback s rfl
  simp only [runUnder, runChargebackUnder_clean] at h
  exact diffed_of_ran h rfl

/-! ## Histories -/

def ruleOf : Call → String
  | .resource rule _ => rule.name
  | .chargeback _ => "chargeback"

/-- Resource rules come from the registry. -/
def Registered (fp : Arith) : Call → Prop
  | .resource rule _ => rule ∈ resourceRules fp
  | .chargeback _ => True

inductive Reached (fp : Arith) : Store → Prop where
  | start {t : Store} (hinsights : t.insights.rows = []) (hevents : t.insightEvents.rows = []) :
      Reached fp t
  | call {t : Store} (h : Reached fp t) (plan : Plan) (c : Call) (hc : Registered fp c)
      (commits : Bool) : Reached fp (afterCall commits (runUnder plan fp (.begin t) c))
  | elsewhere {t t' : Store} (h : Reached fp t) (hsame : Unchanged t t') : Reached fp t'

theorem ran_call (plan : Plan) (fp : Arith) (t : Store) (c : Call) :
    Ran fp (ruleOf c) t (runUnder plan fp (.begin t) c) := by
  cases hbegin : plan.stage .begin with
  | none =>
    cases c with
    | resource rule env => exact ran_resource (.begin t) hbegin
    | chargeback env => exact ran_chargeback (.begin t) hbegin
  | some failure =>
    have hout : runUnder plan fp (.begin t) c =
        ((Session.begin t).writes failure.writes, some failure.error) := by
      cases c <;> simp only [runUnder, runResourceRuleUnder, runChargebackUnder, hbegin, raised]
    rw [hout]
    refine .inr ⟨Option.some_ne_none _, ?_⟩
    show Unchanged t ((Session.begin t).writes failure.writes).committed
    rw [Session.writes_committed]
    exact ⟨rfl, rfl⟩

/-- A run that raises leaves the insights and the log as they were. -/
theorem afterCall_cases {fp : Arith} {name : String} {t : Store} {out : DbSession × Option PyError}
    (h : Ran fp name t out) (commits : Bool) :
    Diffed fp name t (afterCall commits out) ∨ Unchanged t (afterCall commits out) := by
  rcases h with ⟨hnone, s, hcommit, hdiff⟩ | ⟨hraised, hsame⟩
  · have hstore : afterCall commits out = s.working := by
      simp only [afterCall, hnone, hcommit]
      cases commits <;> rfl
    exact .inl (hstore ▸ hdiff)
  · obtain ⟨e, he⟩ := Option.ne_none_iff_exists'.1 hraised
    have hstore : afterCall commits out = out.1.committed := by
      simp only [afterCall, he]
      rfl
    exact .inr (hstore ▸ hsame)

/-! ## The log as a history -/

/-- An event says that a fingerprint of a rule has come or gone. -/
def entry (e : InsightEventRow) : (String × String) × Bool :=
  ((e.ruleName, e.fingerprint), e.event = .appeared)

def entries (t : Store) : List ((String × String) × Bool) := t.insightEvents.rows.map entry

/-- The rule has an insight with that fingerprint. -/
def Stored (t : Store) (k : String × String) : Prop :=
  ∃ r ∈ t.insights, (r.ruleName, InsightEvents.fingerprint r) = k

def keyOf (h : Head) : String × String := (h.1, InsightEvents.fingerprintOf h.1 h.2.1 h.2.2)

theorem stored_iff_heads {t : Store} {k : String × String} :
    Stored t k ↔ ∃ h ∈ heads t, keyOf h = k := by
  constructor
  · rintro ⟨r, hr, rfl⟩
    exact ⟨head r, mem_heads.2 ⟨r, hr, rfl⟩, rfl⟩
  · rintro ⟨h, hh, rfl⟩
    obtain ⟨r, hr, rfl⟩ := mem_heads.1 hh
    exact ⟨r, hr, rfl⟩

theorem stored_iff_ofRule {t : Store} {name print : String} :
    Stored t (name, print) ↔
      ∃ r ∈ Insights.ofRule t name, InsightEvents.fingerprint r = print := by
  constructor
  · rintro ⟨r, hr, hk⟩
    obtain ⟨hname, hprint⟩ := Prod.mk.inj hk
    exact ⟨r, List.mem_filter.2 ⟨hr, decide_eq_true hname⟩, hprint⟩
  · rintro ⟨r, hr, hprint⟩
    obtain ⟨hmem, hname⟩ := List.mem_filter.1 hr
    exact ⟨r, hmem, Prod.ext (of_decide_eq_true hname) hprint⟩

/-- The keys of the items that one snapshot of a rule has and the other has not. -/
def absentKeys (name : String) (t t' : Store) : List (String × String) :=
  (InsightEvents.absentFrom (InsightEvents.snapshotRule t name)
    (InsightEvents.snapshotRule t' name)).map fun p => (name, p.1)

theorem nodup_absentKeys (name : String) (t t' : Store) : (absentKeys name t t').Nodup := by
  have hkeys := (InsightEvents.snapshotRule t name).nodup
  have hfst : ((InsightEvents.absentFrom (InsightEvents.snapshotRule t name)
      (InsightEvents.snapshotRule t' name)).map Prod.fst).Nodup :=
    (List.filter_sublist.map _).nodup hkeys
  have hmap : absentKeys name t t' = ((InsightEvents.absentFrom (InsightEvents.snapshotRule t name)
      (InsightEvents.snapshotRule t' name)).map Prod.fst).map (Prod.mk name) := by
    rw [List.map_map]
    rfl
  rw [hmap]
  exact hfst.map fun a b h => (Prod.mk.inj h).2

theorem mem_absentKeys {name : String} {t t' : Store}
    (hothers : ∀ h : Head, h.1 ≠ name → (h ∈ heads t' ↔ h ∈ heads t)) {k : String × String} :
    k ∈ absentKeys name t t' ↔ Stored t k ∧ ¬ Stored t' k := by
  obtain ⟨name', print⟩ := k
  constructor
  · intro h
    obtain ⟨p, hp, hk⟩ := List.mem_map.1 h
    obtain ⟨rfl, rfl⟩ := Prod.mk.inj hk
    obtain ⟨hr, hprint, hgone⟩ := mem_absentFrom hp
    rw [stored_iff_ofRule, stored_iff_ofRule]
    exact ⟨⟨p.2, hr, hprint⟩, fun ⟨r, hr', he⟩ => hgone r hr' he⟩
  · rintro ⟨hstored, hgone⟩
    by_cases hname : name' = name
    · subst hname
      rw [stored_iff_ofRule] at hstored hgone
      obtain ⟨r, hr, rfl⟩ := hstored
      obtain ⟨p, hp, hprint⟩ := exists_absentFrom hr fun r' hr' he => hgone ⟨r', hr', he⟩
      exact List.mem_map.2 ⟨p, hp, Prod.ext rfl hprint⟩
    · rw [stored_iff_heads] at hstored hgone
      obtain ⟨h, hh, hk⟩ := hstored
      have hne : h.1 ≠ name := fun he => hname ((Prod.mk.inj hk).1.symm.trans he)
      exact absurd ⟨h, (hothers h hne).2 hh, hk⟩ hgone

theorem map_entry {fp : Arith} {name : String} {kind : EventKind}
    {ps : List (String × InsightRow)} {new : List InsightEventRow}
    (h : List.Forall₂ (Recorded fp name kind) ps new) :
    new.map entry = (ps.map fun p => (name, p.1)).map fun k => (k, decide (kind = .appeared)) := by
  induction h with
  | nil => rfl
  | @cons p e ps new hr _ ih =>
    rw [List.map_cons, ih, entry, hr.ruleName, hr.fingerprint, hr.event]
    rfl

theorem entries_of_diffed {fp : Arith} {name : String} {t t' : Store} (h : Diffed fp name t t') :
    entries t' = entries t ++ ((absentKeys name t' t).map (fun k => (k, true)) ++
      (absentKeys name t t').map (fun k => (k, false))) := by
  obtain ⟨new₁, new₂, hrows, hnew₁, hnew₂⟩ := h.log
  rw [entries, hrows, List.map_append, List.map_append, map_entry hnew₁, map_entry hnew₂]
  rfl

/-- What one run does to the history. -/
theorem tells_of_diffed {fp : Arith} {name : String} {t t' : Store} (h : Diffed fp name t t')
    (ht : Presence.Tells (entries t) (Stored t)) : Presence.Tells (entries t') (Stored t') := by
  rw [entries_of_diffed h]
  exact ht.append (nodup_absentKeys name t' t) (nodup_absentKeys name t t')
    (fun k => mem_absentKeys fun hd hname => (h.others hd hname).symm)
    (fun k => mem_absentKeys h.others)

theorem tells_of_unchanged {t t' : Store} (h : Unchanged t t')
    (ht : Presence.Tells (entries t) (Stored t)) : Presence.Tells (entries t') (Stored t') := by
  rw [entries, h.events]
  exact ht.congr fun k => by rw [stored_iff_heads, stored_iff_heads, h.heads]

theorem tells_of_reached {fp : Arith} {t : Store} (h : Reached fp t) :
    Presence.Tells (entries t) (Stored t) := by
  induction h with
  | start hinsights hevents =>
    rw [entries, hevents]
    refine Presence.Tells.nil fun k => ?_
    rintro ⟨r, hr, _⟩
    rw [Table.mem_def, hinsights] at hr
    cases hr
  | call h plan c hc commits ih =>
    rcases afterCall_cases (ran_call plan fp _ c) commits with hdiff | hsame
    · exact tells_of_diffed hdiff ih
    · exact tells_of_unchanged hsame ih
  | elsewhere h hsame ih => exact tells_of_unchanged hsame ih

/-! ## Fingerprints alone -/

/-- The text whose digest an event carries. -/
def hashed (e : InsightEventRow) : String :=
  e.ruleName ++ "|" ++ e.resourceId.elim "" Uuid.text ++ "|" ++ e.title

/-- SHA-256 tells the texts of the log apart. -/
def Apart (t : Store) : Prop :=
  ∀ e ∈ t.insightEvents, ∀ e' ∈ t.insightEvents,
    sha256 (hashed e) = sha256 (hashed e') → hashed e = hashed e'

instance (t : Store) : Decidable (Apart t) :=
  inferInstanceAs (Decidable (∀ e ∈ t.insightEvents, ∀ e' ∈ t.insightEvents, _ → _))

/-- The events as arrivals and departures of fingerprints, whatever their rule. -/
def prints (t : Store) : List (String × Bool) :=
  t.insightEvents.rows.map fun e => (e.fingerprint, e.event = .appeared)

def StoredPrint (t : Store) (print : String) : Prop :=
  ∃ r ∈ t.insights, InsightEvents.fingerprint r = print

/-- An event carries the digest of its own text, and its rule has no separator in its name. -/
structure Hashed (e : InsightEventRow) : Prop where
  fingerprint : e.fingerprint = sha256 (hashed e)
  name : '|' ∉ e.ruleName.toList

theorem bar_notMem_ruleOf {fp : Arith} {c : Call} (h : Registered fp c) :
    '|' ∉ (ruleOf c).toList := by
  cases c with
  | chargeback env =>
    show '|' ∉ "chargeback".toList
    decide
  | resource rule env =>
    have hnames : ∀ name ∈ (resourceRules fp).map (·.name), '|' ∉ name.toList := by
      show ∀ name ∈ ["rds_eol", "mysql_eol", "aurora_eol", "ebs_gp2_to_gp3", "ebs_unattached",
        "snapshot_orphan", "ec2_stopped_with_storage"], '|' ∉ name.toList
      decide
    exact hnames rule.name (List.mem_map_of_mem h)

theorem hashed_of_recorded {fp : Arith} {name : String} {kind : EventKind} {t t' : Store}
    (hname : '|' ∉ name.toList) {new : List InsightEventRow}
    (h : List.Forall₂ (Recorded fp name kind) (InsightEvents.absentFrom
      (InsightEvents.snapshotRule t name) (InsightEvents.snapshotRule t' name)) new) :
    ∀ e ∈ new, Hashed e := by
  intro e he
  obtain ⟨p, hp, hr⟩ := Loop.exists_left h he
  obtain ⟨hrow, hprint, _⟩ := mem_absentFrom hp
  have hrule : p.2.ruleName = name := of_decide_eq_true (List.mem_filter.1 hrow).2
  refine ⟨?_, hr.ruleName ▸ hname⟩
  rw [hr.fingerprint, ← hprint, InsightEvents.fingerprint, InsightEvents.fingerprintOf, hrule,
    hashed, hr.ruleName, hr.resourceId, hr.title]

theorem hashed_of_reached {fp : Arith} {t : Store} (h : Reached fp t) :
    ∀ e ∈ t.insightEvents.rows, Hashed e := by
  induction h with
  | start hinsights hevents =>
    rw [hevents]
    exact fun e he => by cases he
  | call h plan c hc commits ih =>
    rcases afterCall_cases (ran_call plan fp _ c) commits with hdiff | hsame
    · obtain ⟨new₁, new₂, hrows, hnew₁, hnew₂⟩ := hdiff.log
      rw [hrows]
      have hname := bar_notMem_ruleOf hc
      exact List.forall_mem_append.2 ⟨ih, List.forall_mem_append.2
        ⟨hashed_of_recorded hname hnew₁, hashed_of_recorded hname hnew₂⟩⟩
    · rw [hsame.events]
      exact ih
  | elsewhere h hsame ih =>
    rw [hsame.events]
    exact ih

/-- A text begins with the name of its rule. -/
theorem ruleName_of_hashed {e e' : InsightEventRow} (he : Hashed e) (he' : Hashed e')
    (h : hashed e = hashed e') : e.ruleName = e'.ruleName := by
  simp only [hashed, String.append_assoc] at h
  exact (Py.split_unique rfl he.name he'.name h).1

theorem print_tells {fp : Arith} {t : Store} (h : Reached fp t) (hapart : Apart t) :
    Presence.Tells (prints t) (StoredPrint t) := by
  have hkeys : ∀ x ∈ entries t, ∀ x' ∈ entries t, x.1.2 = x'.1.2 → x.1 = x'.1 := by
    intro x hx x' hx' hsame
    obtain ⟨e, he, rfl⟩ := List.mem_map.1 hx
    obtain ⟨e', he', rfl⟩ := List.mem_map.1 hx'
    have hhashed := hashed_of_reached h
    have htext : sha256 (hashed e) = sha256 (hashed e') := by
      rw [← (hhashed e he).fingerprint, ← (hhashed e' he').fingerprint]
      exact hsame
    exact Prod.ext (ruleName_of_hashed (hhashed e he) (hhashed e' he')
      (hapart e he e' he' htext)) hsame
  have hlog : prints t = Presence.rename Prod.snd (entries t) := by
    rw [Presence.rename, entries, List.map_map]
    rfl
  rw [hlog]
  refine ((tells_of_reached h).map hkeys).congr fun print => ?_
  constructor
  · rintro ⟨k, rfl, r, hr, rfl⟩
    exact ⟨r, hr, rfl⟩
  · rintro ⟨r, hr, rfl⟩
    exact ⟨_, rfl, r, hr, rfl⟩

/-- In every store that rule runs reach, the events of a fingerprint appear and resolve in turn,
and the log folds to the fingerprints that are stored: for each rule, and over all rules when the
digests tell the texts of the log apart. -/
theorem log_replays {fp : Arith} {t : Store} (h : Reached fp t) :
    Presence.Tells (entries t) (Stored t) ∧
      (Apart t → Presence.Tells (prints t) (StoredPrint t)) :=
  ⟨tells_of_reached h, print_tells h⟩

def onDay (day : Int) : Call :=
  .resource History.rdsEolRule
    ⟨History.tenthOfDecember + day * Micros.day + 3600 * Micros.second,
      ⟨(Date.ofYmd 2026 12 10).ordinal + day⟩, some defaultScopeMaxAge⟩

def chargebackCall : Call :=
  .chargeback ⟨0, "", none, Focus.insertionOrder, id, List.Perm.refl⟩

def scanned : Store :=
  Trace.exec (History.step .double) Store.empty
    [History.rdsScan History.tenthOfDecember [History.ordersDb]]

/-- The gap of the instance is reported on the 10th, and resolved two days later, when its scope is
stale; the chargeback between the two has nothing to report. -/
def threeRuns : Store :=
  [onDay 0, chargebackCall, onDay 2].foldl
    (fun t c => afterCall false (runUnder .clean .double (.begin t) c)) scanned

theorem three_runs_replay : ((prints threeRuns).map Prod.snd = [true, false] ∧ Apart threeRuns) ∧
    Presence.Tells (prints threeRuns) (StoredPrint threeRuns) := by
  have hscanned : Reached .double scanned := .start (by decide +kernel) (by decide +kernel)
  have hreached : Reached .double threeRuns :=
    ((hscanned.call .clean (onDay 0) List.mem_cons_self false).call .clean chargebackCall trivial
      false).call .clean (onDay 2) List.mem_cons_self false
  have hlog : (prints threeRuns).map Prod.snd = [true, false] ∧ Apart threeRuns := by
    decide +kernel
  exact ⟨hlog, (log_replays hreached).2 hlog.2⟩

end EventLog

end Constat
