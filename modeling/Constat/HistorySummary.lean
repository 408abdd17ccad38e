import Constat.EventLog
import Constat.Listings

/-!
# HistorySummary

`summarize_events` of `repositories/insight_events.py`, the headline figures of
`GET /insights/history`: how many gaps have appeared and how many were resolved, since some time on
or ever, of one rule or of all.

* `summarizeEvents` — the counts and the resolved total of the events that are selected.
* `Onward`          — a store that rule runs reach from another.
* `summary_balances` — what has appeared in a window is what was resolved in it and what is stored
                       more at its end than at its start, by fingerprint.
-/

namespace Constat

namespace HistorySummary

open Listings Runner RunFailures EventLog
open Idempotency (HttpException)

structure Summary where
  appearedCount : Nat
  resolvedCount : Nat
  resolvedMonthlyUsdTotal : PyFloat

def ofKind (kind : EventKind) (e : InsightEventRow) : Bool := e.event = kind

/-- The database adds the amounts up in an order of its own. -/
def summarizeEvents (fp : Arith) (order : List InsightEventRow → List InsightEventRow) (t : Store)
    (f : EventFilters) : Except HttpException Summary :=
  (listEvents t f).map fun q => {
    appearedCount := q.rows.countP (ofKind .appeared)
    resolvedCount := q.rows.countP (ofKind .resolved)
    resolvedMonthlyUsdTotal := InsightEvents.resolvedMonthlyUsdTotal fp (order q.rows) }

/-! ## The stores that runs reach -/

/-- The stores that rule runs, and what leaves the identities of the insights and the log alone,
reach from `t`. -/
inductive Onward (fp : Arith) (t : Store) : Store → Prop where
  | refl : Onward fp t t
  | call {t' : Store} (h : Onward fp t t') (plan : Plan) (c : Call) (hc : Registered fp c)
      (commits : Bool) : Onward fp t (afterCall commits (runUnder plan fp (.begin t') c))
  | elsewhere {t' t'' : Store} (h : Onward fp t t') (hsame : Unchanged t' t'') : Onward fp t t''

theorem Onward.reached {fp : Arith} {t t' : Store} (h : Onward fp t t') (ht : Reached fp t) :
    Reached fp t' := by
  induction h with
  | refl => exact ht
  | call _ plan c hc commits ih => exact ih.call plan c hc commits
  | elsewhere _ hsame ih => exact ih.elsewhere hsame

/-- The log is only appended to. -/
theorem Onward.log {fp : Arith} {t t' : Store} (h : Onward fp t t') :
    t.insightEvents.rows <+: t'.insightEvents.rows := by
  induction h with
  | refl => exact List.prefix_rfl
  | call _ plan c hc commits ih =>
    rcases afterCall_cases (ran_call plan fp _ c) commits with hdiff | hsame
    · obtain ⟨new₁, new₂, hrows, _⟩ := hdiff.log
      exact ih.trans (hrows ▸ List.prefix_append _ _)
    · rw [hsame.events]
      exact ih
  | elsewhere _ hsame ih =>
    rw [hsame.events]
    exact ih

/-! ## What is stored -/

def storedKey (r : InsightRow) : String × String := (r.ruleName, InsightEvents.fingerprint r)

/-- The fingerprints that are stored, each with its rule: of one rule or of all. -/
def storedPrints (t : Store) (ruleName : Option String) : Finset (String × String) :=
  ((t.insights.rows.filter fun r => keep ruleName r.ruleName).map storedKey).toFinset

theorem mem_storedPrints {t : Store} {ruleName : Option String} {k : String × String} :
    k ∈ storedPrints t ruleName ↔ Stored t k ∧ keep ruleName k.1 = true := by
  rw [storedPrints, List.mem_toFinset, List.mem_map]
  constructor
  · rintro ⟨r, hr, rfl⟩
    obtain ⟨hmem, hrule⟩ := List.mem_filter.1 hr
    exact ⟨⟨r, hmem, rfl⟩, hrule⟩
  · rintro ⟨⟨r, hmem, rfl⟩, hrule⟩
    exact ⟨r, List.mem_filter.2 ⟨hmem, hrule⟩, rfl⟩

/-- The counts over the whole log of a reached store. -/
theorem log_balances {fp : Arith} {t : Store} (h : Reached fp t) (ruleName : Option String) :
    (t.insightEvents.rows.filter fun e => keep ruleName e.ruleName).countP (ofKind .appeared) =
      (t.insightEvents.rows.filter fun e => keep ruleName e.ruleName).countP (ofKind .resolved) +
        (storedPrints t ruleName).card := by
  let q : String × String → Bool := fun k => keep ruleName k.1
  have htells := tells_of_reached h
  have halternates : ∀ k, Presence.Alternates true
      (Presence.kinds ((entries t).filter fun x => q x.1) k) := by
    intro k
    rw [Presence.kinds_filter]
    split
    · exact htells.alternates k
    · exact trivial
  have hthere : Presence.replay ((entries t).filter fun x => q x.1) = storedPrints t ruleName := by
    ext k
    rw [Presence.replay_filter, Finset.mem_filter, htells.current, mem_storedPrints]
  have hlog : (entries t).filter (fun x => q x.1) =
      (t.insightEvents.rows.filter fun e => keep ruleName e.ruleName).map entry := by
    rw [entries, List.filter_map]
    rfl
  have hbalance := Presence.come_eq_gone_add halternates
  rw [hthere, hlog, List.countP_map, List.countP_map] at hbalance
  have hgone : (fun x : (String × String) × Bool => !x.2) ∘ entry = ofKind .resolved := by
    funext e
    simp only [Function.comp_apply, entry, ofKind]
    cases e.event <;> rfl
  rw [hgone] at hbalance
  exact hbalance

/-! ## The summary of a window -/

theorem summary_counts (fp : Arith) (order : List InsightEventRow → List InsightEventRow)
    (t : Store) (f : EventFilters) (kind : Option EventKind) (hkind : eventFilter f.event = .ok kind) :
    ∃ s, summarizeEvents fp order t f = .ok s ∧
      s.appearedCount = (filtered t f kind).countP (ofKind .appeared) ∧
      s.resolvedCount = (filtered t f kind).countP (ofKind .resolved) := by
  refine ⟨_, by rw [summarizeEvents, listEvents, hkind]; rfl, rfl, rfl⟩

/-- The events of a window are those that were logged after it began. -/
theorem summary_balances {fp : Arith} {t t' : Store} (ht : Reached fp t) (hon : Onward fp t t')
    {since : Micros} (hbefore : ∀ e ∈ t.insightEvents, e.occurredAt < since)
    (hafter : ∀ e ∈ t'.insightEvents, e ∈ t.insightEvents ∨ since ≤ e.occurredAt)
    (ruleName : Option String) (order : List InsightEventRow → List InsightEventRow) :
    ∃ s, summarizeEvents fp order t' ⟨ruleName, some since, none⟩ = .ok s ∧
      s.appearedCount + (storedPrints t ruleName).card =
        s.resolvedCount + (storedPrints t' ruleName).card := by
  have hbalance := log_balances ht ruleName
  have hbalance' := log_balances (hon.reached ht) ruleName
  obtain ⟨new, hnew⟩ := hon.log
  have hwindow : filtered t' ⟨ruleName, some since, none⟩ none =
      new.filter fun e => keep ruleName e.ruleName := by
    have hnodup : t'.insightEvents.rows.Nodup := List.Nodup.of_map _ t'.insightEvents.nodup
    rw [← hnew, List.nodup_append] at hnodup
    have hold : t.insightEvents.rows.filter (fun e => keep ruleName e.ruleName &&
        (some since).elim true (fun since => decide (since ≤ e.occurredAt)) &&
        keep (none : Option EventKind) e.event) = [] := by
      rw [List.filter_eq_nil_iff]
      intro e he
      simp [not_le.2 (hbefore e he)]
    rw [filtered, ← hnew, List.filter_append, hold, List.nil_append]
    refine List.filter_congr fun e he => ?_
    have hmem : e ∈ t'.insightEvents.rows := hnew ▸ List.mem_append_right _ he
    rcases hafter e hmem with hin | hsince
    · exact absurd rfl (hnodup.2.2 e hin e he)
    · simp [hsince, keep]
  obtain ⟨s, hs, happeared, hresolved⟩ :=
    summary_counts fp order t' ⟨ruleName, some since, none⟩ none rfl
  refine ⟨s, hs, ?_⟩
  rw [hwindow] at happeared hresolved
  rw [← hnew, List.filter_append, List.countP_append, List.countP_append] at hbalance'
  omega

/-- The gap is reported and resolved within the window. -/
theorem three_runs_balance : ∃ s, summarizeEvents .double id threeRuns ⟨none, some 1, none⟩ = .ok s ∧
    s.appearedCount + (storedPrints scanned none).card =
      s.resolvedCount + (storedPrints threeRuns none).card := by
  have hscanned : Reached .double scanned := .start (by decide +kernel) (by decide +kernel)
  have honward : Onward .double scanned threeRuns :=
    ((Onward.refl.call .clean (onDay 0) List.mem_cons_self false).call .clean chargebackCall trivial
      false).call .clean (onDay 2) List.mem_cons_self false
  have hlater : ∀ e ∈ threeRuns.insightEvents, 1 ≤ e.occurredAt := by decide +kernel
  exact summary_balances hscanned honward (by decide +kernel) (fun e he => .inr (hlater e he)) none id

end HistorySummary

end Constat
