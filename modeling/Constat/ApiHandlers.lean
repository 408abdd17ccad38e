import Constat.Access
import Constat.InsightExport

/-!
# ApiHandlers

The handlers of the listings, of the export and of the write endpoints, as `Access.Handlers`. A write
request has no Idempotency-Key. What the rest of the endpoints do is a parameter.

* `readContent` — the reads, with the number of their rows.
* `operate`     — the writes; none of them writes the event of a read (`silent_operate`).
* `endpoints`   — both, and what the rest do.
-/

namespace Constat

namespace Access

open ApiKeys (Principal)
open Endpoints (Handled Operation)
open Idempotency (HttpException)
open Listings (PageLimit serve)
open RunFailures (Stage)
open Runner
open Session (WritesOnly)

/-! ## Reads -/

/-- A page, and the order that the database has the rows in. -/
structure Page (α : Type) where
  limit : PageLimit
  offset : Nat
  order : List α → List α

inductive Content where
  | insights (f : Listings.InsightFilters) (page : Page InsightRow)
  | exportCsv (f : InsightExport.ExportFilters) (page : Page InsightRow)
  | insight (id : Uuid)
  | inconclusives (f : Listings.InconclusiveFilters) (page : Page InconclusiveRow)
  | inconclusive (id : Uuid)
  | history (f : Listings.EventFilters) (page : Page InsightEventRow)
  | accounts (createdAt : Uuid → Micros) (page : Page Account)
  | write (operation : Operation) (now : Micros) (raised : Option PyError)

inductive Answer where
  | insights (rows : List InsightRow)
  | csv (text : String)
  | inconclusives (rows : List InconclusiveRow)
  | events (rows : List InsightEventRow)
  | accounts (rows : List Account)
  | written (response : Endpoints.Response)

/-- A page of a listing, with the number of its rows. -/
def listed {α κ : Type} (answer : List α → Answer)
    (query : Except HttpException (Listings.Query α κ)) (page : Page α) :
    Except HttpException (Answer × Nat) :=
  (serve query page.order page.limit.value page.offset).map fun rows => (answer rows, rows.length)

def found {α : Type} (answer : α → Answer) (detail : String) :
    Option α → Except HttpException (Answer × Nat)
  | none => .error ⟨404, detail⟩
  | some row => .ok (answer row, 1)

def readContent (fp : Arith) (t : Store) : Content → Option (Except HttpException (Answer × Nat))
  | .insights f page => some (listed .insights (Listings.listInsights t f) page)
  | .exportCsv f page =>
    some (match InsightExport.exportInsightsCsv fp t f page.order page.limit.value page.offset with
      | .error _ => .error Endpoints.internalServerError
      | .ok text => .ok (.csv text,
          (InsightExport.exported t f page.order page.limit.value page.offset).length))
  | .insight id =>
    some (found (fun row => .insights [row]) "insight not found" (t.insights.get? id))
  | .inconclusives f page => some (listed .inconclusives (Listings.listInconclusive t f) page)
  | .inconclusive id =>
    some (found (fun row => .inconclusives [row]) "inconclusive not found" (t.inconclusive.get? id))
  | .history f page => some (listed .events (Listings.listEvents t f) page)
  | .accounts createdAt page => some (listed .accounts (.ok (Listings.listAccounts createdAt t)) page)
  | .write _ _ _ => none

/-- The endpoint that a request with this content is for. -/
def Content.endpoint : Content → Endpoint
  | .insights _ _ => .listInsights
  | .exportCsv _ _ => .exportInsightsCsv
  | .insight _ => .getInsight
  | .inconclusives _ _ => .listInconclusive
  | .inconclusive _ => .getInconclusive
  | .history _ _ => .insightHistory
  | .accounts _ _ => .listAccounts
  | .write (.patchInsight _ _) _ _ => .patchInsight
  | .write (.createInconclusive _) _ _ => .createInconclusive
  | .write (.patchInconclusive _ _) _ _ => .patchInconclusive
  | .write (.createInsight _) _ _ => .createInsight
  | .write (.runInsights _ _) _ _ => .runInsights
  | .write (.triggerAwsCollect _) _ _ => .triggerAwsCollect

/-! ## Writes -/

def operate (fp : Arith) (cfg : Endpoints.Settings) (p : Principal) (operation : Operation)
    (now : Micros) (raised : Option PyError) (t : Store) : Handled :=
  Endpoints.handle fp cfg ⟨p.tenantId, auditActor p, now, none, raised, operation⟩ (.begin t)

/-- Nothing is committed, and the events of the reads are the same. -/
structure SameReads (s s' : DbSession) : Prop where
  committed : s'.committed = s.committed
  reads : reads s'.working = reads s.working

namespace SameReads

variable {s s' s'' : DbSession}

theorem refl (s : DbSession) : SameReads s s := ⟨rfl, rfl⟩

theorem trans (h : SameReads s s') (h' : SameReads s' s'') : SameReads s s'' :=
  ⟨h'.committed.trans h.committed, h'.reads.trans h.reads⟩

theorem of_writesOnly {p : Write → Bool} (h : WritesOnly p s s')
    (hp : ∀ w, p w = true → ∀ t, (applyWrite t w).auditEvents = t.auditEvents) :
    SameReads s s' := by
  refine ⟨h.committed, ?_⟩
  unfold Access.reads
  rw [h.frame Store.auditEvents hp]

theorem of_output (h : WritesOnly isOutput s s') : SameReads s s' :=
  of_writesOnly h fun w hw _ => by cases w <;> first | rfl | cases hw

theorem of_insight (h : WritesOnly isInsight s s') : SameReads s s' :=
  of_output (h.mono isOutput_of_isInsight)

theorem of_event (h : WritesOnly isEvent s s') : SameReads s s' :=
  of_writesOnly h fun w hw _ => by cases w <;> first | rfl | cases hw

/-- An event of another action, under a key of its own. -/
theorem event {e : AuditEventRow} (hid : e.id = s.working.auditEvents.next)
    (haction : e.action ≠ readAction) : SameReads s (s.write (.auditEvent e)) := by
  refine ⟨rfl, ?_⟩
  have hrows : (s.write (.auditEvent e)).working.auditEvents.rows =
      s.working.auditEvents.rows ++ [e] := Table.rows_put_next _ hid
  unfold Access.reads
  rw [hrows, List.filter_append]
  simp [haction]

theorem foldl {stages : List Stage} (h : ∀ st ∈ stages, ∀ s, SameReads s (st.2 s))
    (s : DbSession) : SameReads s (stages.foldl (fun s st => st.2 s) s) := by
  induction stages generalizing s with
  | nil => exact refl s
  | cons st stages ih =>
    exact (h st List.mem_cons_self s).trans
      (ih (fun st' hst' => h st' (List.mem_cons_of_mem st hst')) (st.2 s))

end SameReads

/-- What a run leaves once its session is closed, whatever fails. -/
theorem reads_conduct {α : Type} {plan : RunFailures.Plan} {before : List Stage}
    {loop : DbSession → RunFailures.Looped α} {after : RunFailures.Looped α → List Stage}
    (last : RunFailures.Looped α → DbSession → DbSession) {s : DbSession}
    (hbefore : ∀ st ∈ before, ∀ s, SameReads s (st.2 s))
    (hloop : ∀ s, SameReads s (loop s).session)
    (hafter : ∀ looped, ∀ st ∈ after looped, ∀ s, SameReads s (st.2 s))
    (hlast : ∀ looped s, SameReads s (last looped s)) (hs : s.working = s.committed) :
    reads (RunFailures.conduct plan before loop after last s).1.committed = reads s.committed := by
  by_cases h : RunFailures.Survives plan before loop after s
  · rw [RunFailures.conduct_of_survives last h]
    let looped := RunFailures.loopAfter before loop s
    have hstart : SameReads s looped.session := (SameReads.foldl hbefore s).trans (hloop _)
    have hend := (SameReads.foldl (hafter looped) looped.session).trans (hlast looped _)
    exact (hstart.trans hend).reads.trans (congrArg reads hs)
  · obtain ⟨e, _, hcommitted⟩ := RunFailures.conduct_of_not_survives last h
      (fun st hst s => (hbefore st hst s).committed) (fun s => (hloop s).committed)
      (fun looped st hst s => (hafter looped st hst s).committed)
      (fun looped s => (hlast looped s).committed)
    rw [hcommitted]

theorem reads_runResourceRuleUnder (plan : RunFailures.Plan) (fp : Arith) (rule : ResourceRule)
    (env : RunEnv) (t : Store) :
    reads (RunFailures.runResourceRuleUnder plan fp rule env (.begin t)).1.committed = reads t := by
  simp only [RunFailures.runResourceRuleUnder]
  split
  · rw [Session.writes_committed]
    rfl
  · refine (reads_conduct _ ?_ ?_ ?_ ?_ rfl).trans rfl
    · intro st hst s
      simp only [RunFailures.resourceBefore, List.mem_cons, List.not_mem_nil, or_false] at hst
      rcases hst with rfl | rfl | rfl | rfl | rfl | rfl
      · exact SameReads.refl _
      · exact SameReads.refl _
      · exact SameReads.refl _
      · exact SameReads.of_output (WritesOnly.write _ rfl)
      · exact SameReads.of_output (WritesOnly.write _ rfl)
      · exact SameReads.refl _
    · exact fun s => SameReads.of_output (RunFailures.evaluateAllUnder_writes plan rule env s)
    · intro looped st hst s
      simp only [RunFailures.resourceAfter, List.mem_cons, List.not_mem_nil, or_false] at hst
      rcases hst with rfl | rfl | rfl
      · exact SameReads.of_insight (writesOnly_insights _ _)
      · exact SameReads.of_insight (writesOnly_insights _ _)
      · exact SameReads.of_event (diffAndRecordEvents_spec fp s rule.name _ _ env.now).1
    · exact fun _ _ => ⟨rfl, rfl⟩

theorem reads_runChargebackUnder (plan : RunFailures.Plan) (fp : Arith) (env : Chargeback.Env)
    (t : Store) :
    reads (RunFailures.runChargebackUnder plan fp env (.begin t)).1.committed = reads t := by
  simp only [RunFailures.runChargebackUnder]
  split
  · rw [Session.writes_committed]
    rfl
  · refine (reads_conduct _ ?_ ?_ ?_ ?_ rfl).trans rfl
    · intro st hst s
      simp only [RunFailures.chargebackBefore, List.mem_cons, List.not_mem_nil, or_false] at hst
      rcases hst with rfl | rfl | rfl | rfl | rfl
      · exact SameReads.refl _
      · exact SameReads.refl _
      · exact SameReads.of_output (WritesOnly.write _ rfl)
      · exact SameReads.refl _
      · exact SameReads.refl _
    · exact fun s => SameReads.of_output (RunFailures.addAccountsUnder_writes plan fp env s)
    · intro looped st hst s
      simp only [RunFailures.chargebackAfter, List.mem_cons, List.not_mem_nil, or_false] at hst
      rcases hst with rfl | rfl | rfl
      · exact (SameReads.mk rfl rfl : SameReads s (s.write (.insightRun _))).trans
          (SameReads.of_insight (writesOnly_insights _ _))
      · exact SameReads.of_event (diffAndRecordEvents_spec fp s "chargeback" _ _ env.now).1
      · exact SameReads.event rfl (by simp [Chargeback.auditEvent, readAction])
    · exact fun _ _ => SameReads.refl _

/-- A session that is opened, written to and committed. -/
theorem reads_commit {t : Store} {s : DbSession} (h : SameReads (.begin t) s) :
    reads s.commit.close = reads t := h.reads

theorem reads_unlessRaised {t : Store} {raised : Option PyError} {out : Handled}
    (h : reads out.1.close = reads t) :
    reads (Endpoints.unlessRaised raised (.begin t) out).1.close = reads t := by
  unfold Endpoints.unlessRaised
  split
  · rfl
  · exact h

theorem reads_updateWorkflow (id : Uuid) (body : Endpoints.WorkflowPatchIn)
    (status : Option InconclusiveStatus) (actor : String) (t : Store) :
    reads (Endpoints.updateWorkflow id body status actor (.begin t)).1.close = reads t := by
  unfold Endpoints.updateWorkflow
  split
  · rfl
  · refine reads_commit ?_
    have hrow : ∀ row, SameReads (.begin t) ((Session.begin t).write (.inconclusive row)) :=
      fun _ => ⟨rfl, rfl⟩
    exact (hrow _).trans (SameReads.event rfl (by simp [Endpoints.workflowEvent, readAction]))

/-- Whatever a write endpoint does, the events of the reads are the same. -/
theorem silent_operate (fp : Arith) (cfg : Endpoints.Settings) (p : Principal)
    (operation : Operation) (now : Micros) (raised : Option PyError) (t : Store) :
    reads (operate fp cfg p operation now raised t).1.close = reads t := by
  unfold operate Endpoints.handle
  cases operation with
  | patchInsight id body =>
    rcases Endpoints.patchInsight_cases id body now raised (.begin t) with hrefused |
      ⟨status, row, hraised, hstatus, hrow⟩
    · show reads (Endpoints.patchInsightEndpoint id body now raised (.begin t)).1.close = _
      rw [hrefused.1]
      rfl
    · subst hraised
      show reads (Endpoints.patchInsightEndpoint id body now none (.begin t)).1.close = _
      rw [Endpoints.patchInsight_accepted now hstatus hrow]
      rfl
  | createInconclusive body =>
    rcases Endpoints.createInconclusive_cases body now raised (.begin t) with hrefused |
      ⟨hraised, hstatus, hid⟩
    · show reads (Endpoints.createInconclusiveEndpoint body now raised (.begin t)).1.close = _
      rw [hrefused.1]
      rfl
    · subst hraised
      obtain ⟨status, hstatus⟩ := Option.isSome_iff_exists.1 hstatus
      obtain ⟨row, _, hout⟩ := Endpoints.createInconclusive_accepted now hstatus hid
      show reads (Endpoints.createInconclusiveEndpoint body now none (.begin t)).1.close = _
      rw [hout]
      rfl
  | patchInconclusive id body =>
    simp only [Endpoints.patchInconclusiveEndpoint]
    split
    · exact reads_unlessRaised (reads_updateWorkflow _ _ _ _ t)
    · rfl
    · split
      · rfl
      · exact reads_unlessRaised (reads_updateWorkflow _ _ _ _ t)
  | createInsight body =>
    simp only [Endpoints.createInsightEndpoint]
    split
    · refine reads_unlessRaised ?_
      split <;> rfl
    · rfl
  | runInsights body plan =>
    simp only [Endpoints.runInsightsEndpoint]
    split
    · exact reads_runResourceRuleUnder _ _ _ _ _
    · split
      · exact reads_runChargebackUnder _ _ _ _
      · rfl
  | triggerAwsCollect body =>
    simp only [Endpoints.triggerAwsCollect]
    generalize (if (body.targets.getD []).isEmpty then body.persisted else body.targets.getD []) =
      targets
    split
    · rfl
    · split
      · rfl
      · refine reads_unlessRaised ?_
        split <;> rfl

/-! ## All endpoints -/

def read (fp : Arith) (rest : Handlers Content Answer) (endpoint : Endpoint) (content : Content)
    (t : Store) : Except HttpException (Answer × Nat) :=
  if content.endpoint = endpoint then
    (readContent fp t content).getD (rest.read endpoint content t)
  else rest.read endpoint content t

def write (fp : Arith) (cfg : Endpoints.Settings) (rest : Handlers Content Answer)
    (endpoint : Endpoint) (p : Principal) (content : Content) (t : Store) :
    Store × Except HttpException Answer :=
  match content with
  | .write operation now raised =>
    if content.endpoint = endpoint then
      let out := operate fp cfg p operation now raised t
      (out.1.close, out.2.map .written)
    else rest.write endpoint p content t
  | _ => rest.write endpoint p content t

theorem silent_write (fp : Arith) (cfg : Endpoints.Settings) (rest : Handlers Content Answer)
    (endpoint : Endpoint) (p : Principal) (content : Content) (t : Store) :
    reads (write fp cfg rest endpoint p content t).1 = reads t := by
  unfold write
  split
  · split
    · exact silent_operate _ _ _ _ _ _ _
    · exact rest.silent _ _ _ _
  · exact rest.silent _ _ _ _

def endpoints (fp : Arith) (cfg : Endpoints.Settings) (rest : Handlers Content Answer) :
    Handlers Content Answer where
  read := read fp rest
  write := write fp cfg rest
  silent := silent_write fp cfg rest

/-- Endpoints that refuse whatever they are sent. -/
def refusing : Handlers Content Answer where
  read := fun _ _ _ => .error ⟨422, "Unprocessable Entity"⟩
  write := fun _ _ _ t => (t, .error ⟨422, "Unprocessable Entity"⟩)
  silent := fun _ _ _ _ => rfl

end Access

end Constat
