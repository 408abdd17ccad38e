import Constat.Endpoints
import Constat.Lib.Trace

/-!
# Durability

What the API has acknowledged, and what later requests see of it. A write is observed when its cell
reads as the session of its request read it, in every store a later request opens its session on,
until another operation writes the cell.

* `Durable`     — along a run, every write that was answered with success is observed.
* `Loses`       — a request whose endpoint answers with success and commits nothing: the
                  acknowledgement of an insight, and an inconclusive that is posted.
* `durable_iff` — a run is durable precisely when no request of it is one of these.
-/

namespace Constat

namespace Endpoints

open Trace

def isSuccess {α : Type} : Except HttpException α → Bool
  | .ok _ => true
  | .error _ => false

/-- The request wrote the cell, and was answered with success. -/
def Acknowledged (out : Handled) (t : Store) (c : Cell) : Prop :=
  isSuccess out.2 = true ∧ Touches t (out.1.durable ++ out.1.pending) c

/-- The event writes a cell of the tenant, for good. -/
def Overwrites (fp : Arith) (cfg : Settings) (tenant : Uuid) (c : Cell) (s : State) :
    Event → Prop
  | .write r => r.tenant = tenant ∧ Touches (s.tenants tenant) (served fp cfg s r).1.durable c
  | .other tenant' o => tenant' = tenant ∧ o.touches (s.tenants tenant) c

def Durable (fp : Arith) (cfg : Settings) (s : State) (es : List Event) : Prop :=
  ∀ pre r mid rest, es = pre ++ .write r :: (mid ++ rest) →
    let before := exec (step fp cfg) s pre
    let out := served fp cfg before r
    let after := step fp cfg before (.write r)
    ∀ c, Acknowledged out (before.tenants r.tenant) c →
      Along (step fp cfg) (fun s e => ¬ Overwrites fp cfg r.tenant c s e) after mid →
      ((exec (step fp cfg) after mid).tenants r.tenant).read c = out.1.working.read c

/-- The request is accepted, and its endpoint does not commit what it writes. -/
def Loses (t : Store) (r : Request) : Prop :=
  match r.operation with
  | .patchInsight id body => r.raised = none ∧ ∃ status row,
      statusOf ackStatuses body.ackStatus = some status ∧ t.insights.get? id = some row ∧
      Insights.withAck row ⟨status, some r.now, body.ackBy⟩ ≠ row
  | .createInconclusive body => r.raised = none ∧
      (statusOf workflowStatuses body.status).isSome = true ∧
      t.inconclusive.get? (body.id.getD t.inconclusive.next) = none
  | _ => False

/-! ## The session of a request -/

theorem unlessRaised_none (s : DbSession) (rest : Handled) : unlessRaised none s rest = rest := rfl

/-- The endpoint refuses and has written nothing. -/
def Refused (s : DbSession) (out : Handled) : Prop := out.1 = s ∧ isSuccess out.2 = false

/-- An acknowledgement that is accepted writes the row and does not commit it. -/
theorem patchInsight_accepted {id : Uuid} {body : AckIn} {status : AckStatus} {row : InsightRow}
    {s : DbSession} (now : Micros) (hstatus : statusOf ackStatuses body.ackStatus = some status)
    (hrow : s.working.insights.get? id = some row) :
    patchInsightEndpoint id body now none s =
      (s.write (.insight (Insights.withAck row ⟨status, some now, body.ackBy⟩)),
        .ok (.insight (Insights.withAck row ⟨status, some now, body.ackBy⟩))) := by
  simp [patchInsightEndpoint, hstatus, unlessRaised_none, Insights.updateAck, hrow]

theorem patchInsight_cases (id : Uuid) (body : AckIn) (now : Micros) (raised : Option PyError)
    (s : DbSession) :
    Refused s (patchInsightEndpoint id body now raised s) ∨
      ∃ status row, raised = none ∧ statusOf ackStatuses body.ackStatus = some status ∧
        s.working.insights.get? id = some row := by
  cases hstatus : statusOf ackStatuses body.ackStatus with
  | none =>
    simp only [patchInsightEndpoint, hstatus]
    exact .inl ⟨rfl, rfl⟩
  | some status =>
    cases raised with
    | some e =>
      simp only [patchInsightEndpoint, hstatus]
      exact .inl ⟨rfl, rfl⟩
    | none =>
      cases hrow : s.working.insights.get? id with
      | none =>
        refine .inl ?_
        simp only [patchInsightEndpoint, hstatus, unlessRaised_none, Insights.updateAck, hrow]
        exact ⟨rfl, rfl⟩
      | some row => exact .inr ⟨status, row, rfl, rfl, rfl⟩

/-- An inconclusive that is accepted is inserted and not committed. -/
theorem createInconclusive_accepted {body : InconclusiveIn} {status : InconclusiveStatus}
    {s : DbSession} (now : Micros) (hstatus : statusOf workflowStatuses body.status = some status)
    (hid : s.working.inconclusive.get? (body.id.getD s.working.inconclusive.next) = none) :
    ∃ row, row.id = body.id.getD s.working.inconclusive.next ∧
      createInconclusiveEndpoint body now none s =
        (s.write (.inconclusive row), .ok (.inconclusive row)) := by
  refine ⟨body.row (body.id.getD s.working.inconclusive.next) status now, rfl, ?_⟩
  simp only [createInconclusiveEndpoint, unlessRaised_none, hstatus, hid]

theorem createInconclusive_cases (body : InconclusiveIn) (now : Micros) (raised : Option PyError)
    (s : DbSession) :
    Refused s (createInconclusiveEndpoint body now raised s) ∨
      raised = none ∧ (statusOf workflowStatuses body.status).isSome = true ∧
        s.working.inconclusive.get? (body.id.getD s.working.inconclusive.next) = none := by
  unfold createInconclusiveEndpoint
  cases raised with
  | some e => exact .inl ⟨rfl, rfl⟩
  | none =>
    cases hstatus : statusOf workflowStatuses body.status with
    | none => exact .inl ⟨rfl, rfl⟩
    | some status =>
      cases hid : s.working.inconclusive.get? (body.id.getD s.working.inconclusive.next) with
      | some row =>
        refine .inl ?_
        simp only [unlessRaised_none, hid]
        exact ⟨rfl, rfl⟩
      | none => exact .inr ⟨rfl, rfl, rfl⟩

/-- What an endpoint that commits does with its session: an answer of success leaves nothing
pending. -/
structure Committed (s : DbSession) (out : Handled) : Prop where
  base : out.1.base = s.base
  pending : isSuccess out.2 = true → out.1.pending = []

theorem Committed.of_refused {s : DbSession} {out : Handled} (h : Refused s out) :
    Committed s out :=
  ⟨congrArg Session.base h.1, fun hsuccess => by rw [h.2] at hsuccess; cases hsuccess⟩

theorem committed_unlessRaised {raised : Option PyError} {s : DbSession} {rest : Handled}
    (h : Committed s rest) : Committed s (unlessRaised raised s rest) := by
  cases raised with
  | none => exact h
  | some e => exact Committed.of_refused ⟨rfl, rfl⟩

theorem committed_createInsight (cfg : Settings) (body : InsightIn) (now : Micros)
    (raised : Option PyError) (s : DbSession) :
    Committed s (createInsightEndpoint cfg body now raised s) := by
  unfold createInsightEndpoint
  split
  · refine committed_unlessRaised ?_
    dsimp only
    split
    · exact Committed.of_refused ⟨rfl, rfl⟩
    · exact ⟨rfl, fun _ => rfl⟩
  · exact Committed.of_refused ⟨rfl, rfl⟩

theorem committed_patchInconclusive (id : Uuid) (body : WorkflowPatchIn) (actor : String)
    (raised : Option PyError) (s : DbSession) :
    Committed s (patchInconclusiveEndpoint id body actor raised s) := by
  have hupdate : ∀ status, Committed s (updateWorkflow id body status actor s) := by
    intro status
    unfold updateWorkflow
    split
    · exact Committed.of_refused ⟨rfl, rfl⟩
    · exact ⟨rfl, fun _ => rfl⟩
  unfold patchInconclusiveEndpoint
  split
  · exact committed_unlessRaised (hupdate none)
  · exact Committed.of_refused ⟨rfl, rfl⟩
  · split
    · exact Committed.of_refused ⟨rfl, rfl⟩
    · exact committed_unlessRaised (hupdate _)

theorem isSuccess_answer {α : Type} {response : α → Idempotency.Response} {out : Except PyError α}
    (h : isSuccess (answer response out) = true) : ∃ result, out = .ok result := by
  cases out with
  | error e => cases h
  | ok result => exact ⟨result, rfl⟩

theorem committed_runInsights (fp : Arith) (plan : RunFailures.Plan)
    (body : Idempotency.RunRequest) (s : DbSession) :
    Committed s (runInsightsEndpoint fp plan body s) := by
  unfold runInsightsEndpoint
  split
  · refine ⟨RunFailures.runResourceRuleUnder_base plan fp _ _ s, fun hsuccess => ?_⟩
    obtain ⟨result, hresult⟩ := isSuccess_answer hsuccess
    exact RunFailures.runResourceRuleUnder_pending hresult
  · split
    · refine ⟨RunFailures.runChargebackUnder_base plan fp _ s, fun hsuccess => ?_⟩
      obtain ⟨result, hresult⟩ := isSuccess_answer hsuccess
      exact RunFailures.runChargebackUnder_pending hresult
    · exact Committed.of_refused ⟨rfl, rfl⟩

theorem committed_triggerAwsCollect (body : Idempotency.CollectRequest) (raised : Option PyError)
    (s : DbSession) : Committed s (triggerAwsCollect body raised s) := by
  unfold triggerAwsCollect
  generalize body.targets.getD [] = given
  generalize hgiven : (if given.isEmpty then body.persisted else given) = targets
  simp only [hgiven]
  split
  · exact Committed.of_refused ⟨rfl, rfl⟩
  · split
    · exact Committed.of_refused ⟨rfl, rfl⟩
    · refine committed_unlessRaised ?_
      split <;> exact ⟨rfl, fun _ => rfl⟩

/-! ## What a request leaves -/

section

variable (fp : Arith) (cfg : Settings)

/-- If the answer is success, the session of the request is closed with all that it has seen. -/
def Kept (out : Handled) : Prop :=
  isSuccess out.2 = true → ∀ c, out.1.close.read c = out.1.working.read c

theorem Committed.kept {s : DbSession} {out : Handled} (h : Committed s out) : Kept out := by
  intro hsuccess c
  rw [Session.close, Session.working_of_pending_nil (h.pending hsuccess)]

theorem Kept.of_refused {s : DbSession} {out : Handled} (h : Refused s out) : Kept out :=
  (Committed.of_refused h).kept

theorem handle_base (r : Request) (s : DbSession) : (handle fp cfg r s).1.base = s.base := by
  unfold handle
  split
  · rename_i id body _
    rcases patchInsight_cases id body r.now r.raised s with hrefused |
      ⟨status, row, hraised, hstatus, hrow⟩
    · exact (Committed.of_refused hrefused).base
    · rw [hraised, patchInsight_accepted r.now hstatus hrow]
      rfl
  · rename_i body _
    rcases createInconclusive_cases body r.now r.raised s with hrefused | ⟨hraised, hstatus, hid⟩
    · exact (Committed.of_refused hrefused).base
    · obtain ⟨status, hstatus⟩ := Option.isSome_iff_exists.1 hstatus
      obtain ⟨row, _, hout⟩ := createInconclusive_accepted r.now hstatus hid
      rw [hraised, hout]
      rfl
  · exact (committed_patchInconclusive _ _ _ _ _).base
  · exact (committed_createInsight _ _ _ _ _).base
  · exact (committed_runInsights fp _ _ _).base
  · exact (committed_triggerAwsCollect _ _ _).base

/-- A request is answered from the cache, or by its endpoint. -/
theorem served_cases (s : State) (r : Request) :
    (∃ body, served fp cfg s r = (.begin (s.tenants r.tenant), .ok body) ∧ r.cacheKey ≠ none) ∨
      served fp cfg s r = handle fp cfg r (.begin (s.tenants r.tenant)) := by
  unfold served serve
  split
  · exact .inr rfl
  · rename_i key hkey
    split
    · rename_i body _
      exact .inl ⟨body, rfl, by simp [hkey]⟩
    · refine .inr ?_
      dsimp only
      split <;> rfl

theorem kept_handle {t : Store} {r : Request} (h : ¬ Loses t r) :
    Kept (handle fp cfg r (.begin t)) := by
  unfold Loses at h
  unfold handle
  split
  · rename_i id body hop
    simp only [hop] at h
    rcases patchInsight_cases id body r.now r.raised (.begin t) with hrefused |
      ⟨status, row, hraised, hstatus, hrow⟩
    · exact Kept.of_refused hrefused
    · rw [hraised, patchInsight_accepted r.now hstatus hrow]
      intro _ c
      -- the row is written as it was
      have hsame : Insights.withAck row ⟨status, some r.now, body.ackBy⟩ = row := by
        by_contra hne
        exact h ⟨hraised, status, row, hstatus, hrow, hne⟩
      rw [hsame, Session.write_working]
      by_cases hc : (Write.insight row).cell = some c
      · obtain ⟨_, hid⟩ := Table.get?_eq_some.1 hrow
        rw [read_applyWrite_self hc]
        cases hc
        simp only [Store.read, hid]
        exact congrArg (Option.map Write.insight) hrow
      · refine (read_applyWrite ?_).symm
        rintro (hcell | ⟨_, _, hselects⟩)
        · exact hc hcell
        · cases hselects
  · rename_i body hop
    simp only [hop] at h
    rcases createInconclusive_cases body r.now r.raised (.begin t) with hrefused | haccepted
    · exact Kept.of_refused hrefused
    · exact absurd haccepted h
  · exact (committed_patchInconclusive _ _ _ _ _).kept
  · exact (committed_createInsight _ _ _ _ _).kept
  · exact (committed_runInsights fp _ _ _).kept
  · exact (committed_triggerAwsCollect _ _ _).kept

theorem kept_served {s : State} {r : Request} (h : ¬ Loses (s.tenants r.tenant) r) :
    Kept (served fp cfg s r) := by
  rcases served_cases fp cfg s r with ⟨body, hout, _⟩ | hout
  · rw [hout]
    exact fun _ _ => rfl
  · rw [hout]
    exact kept_handle fp cfg h

/-- The only write of a request is not committed: its cell is as it was. -/
theorem lost_write {t : Store} {w : Write} {c : Cell} {response : Response}
    (hcell : w.cell = some c) (hne : t.read c ≠ some w) :
    let out : Handled := ((Session.begin t).write w, .ok response)
    Acknowledged out t c ∧ out.1.close.read c ≠ out.1.working.read c := by
  refine ⟨⟨rfl, .inl (.inl hcell)⟩, ?_⟩
  rw [Session.write_working, Session.begin_working, read_applyWrite_self hcell]
  exact hne

theorem lost_of_loses {s : State} {r : Request} (h : Loses (s.tenants r.tenant) r) :
    ∃ c, Acknowledged (served fp cfg s r) (s.tenants r.tenant) c ∧
      (served fp cfg s r).1.close.read c ≠ (served fp cfg s r).1.working.read c := by
  have hserved : served fp cfg s r = handle fp cfg r (.begin (s.tenants r.tenant)) := by
    rcases served_cases fp cfg s r with ⟨_, _, hkey⟩ | hout
    · unfold Loses at h
      unfold Request.cacheKey at hkey
      cases hop : r.operation <;> simp [hop] at h hkey
    · exact hout
  rw [hserved]
  unfold Loses at h
  unfold handle
  split at h
  · rename_i id body hop
    obtain ⟨hraised, status, row, hstatus, hrow, hne⟩ := h
    simp only [hop, hraised]
    rw [patchInsight_accepted (s := .begin _) r.now hstatus hrow]
    refine ⟨_, lost_write rfl ?_⟩
    obtain ⟨_, rfl⟩ := Table.get?_eq_some.1 hrow
    intro hread
    obtain ⟨row', hrow', heq⟩ := Option.map_eq_some_iff.1 hread
    cases heq
    exact hne (Option.some.inj (hrow'.symm.trans hrow))
  · rename_i body hop
    obtain ⟨hraised, hstatus, hid⟩ := h
    obtain ⟨status, hstatus⟩ := Option.isSome_iff_exists.1 hstatus
    obtain ⟨row, hrow, hout⟩ := createInconclusive_accepted (s := .begin _) r.now hstatus hid
    simp only [hop, hraised]
    rw [hout]
    refine ⟨_, lost_write rfl ?_⟩
    intro hread
    obtain ⟨row', hrow', _⟩ := Option.map_eq_some_iff.1 hread
    rw [hrow] at hrow'
    cases hid.symm.trans hrow'
  · cases h

/-! ## A run -/

theorem served_base (s : State) (r : Request) : (served fp cfg s r).1.base = s.tenants r.tenant := by
  rcases served_cases fp cfg s r with ⟨body, hout, _⟩ | hout
  · rw [hout]
    rfl
  · rw [hout, handle_base]
    rfl

/-- A cell that an event does not write reads as before. -/
theorem read_step {tenant : Uuid} {c : Cell} {s : State} {e : Event}
    (h : ¬ Overwrites fp cfg tenant c s e) :
    ((step fp cfg s e).tenants tenant).read c = (s.tenants tenant).read c := by
  cases e with
  | write r =>
    simp only [step, Function.update_apply]
    split
    · rename_i htenant
      subst htenant
      have hkeep : ¬ Touches (s.tenants r.tenant) (served fp cfg s r).1.durable c :=
        fun ht => h ⟨rfl, ht⟩
      rw [Session.close, Session.committed_eq, served_base, read_foldl hkeep]
    · rfl
  | other tenant' o =>
    simp only [step, Function.update_apply]
    split
    · rename_i htenant
      subst htenant
      exact o.frame _ _ fun ht => h ⟨rfl, ht⟩
    · rfl

/-- Along every run of requests, each in a session of its own, what was acknowledged is observed
precisely when no request is an acknowledgement or an inconclusive that is accepted. -/
theorem durable_iff (s : State) (es : List Event) :
    Durable fp cfg s es ↔ Along (step fp cfg)
      (fun s e => ∀ r, e = .write r → ¬ Loses (s.tenants r.tenant) r) s es := by
  constructor
  · intro h
    refine Along.of_prefix fun pre e suf hes r he hloses => ?_
    subst he
    obtain ⟨c, hack, hlost⟩ := lost_of_loses fp cfg hloses
    have hread := h pre r [] suf hes c hack trivial
    simp only [exec_nil, step, Function.update_self] at hread
    exact hlost hread
  · intro h pre r mid rest hes before out after c hack hmid
    have hkept : Kept out := kept_served fp cfg ((hes ▸ h).at_step r rfl)
    have hafter : (after.tenants r.tenant).read c = out.1.working.read c := by
      simp only [after, step, Function.update_self]
      exact hkept hack.1 c
    -- what reads as the session read it goes on to do so, as long as nobody writes it
    exact Along.exec_inv (I := fun s => (s.tenants r.tenant).read c = out.1.working.read c)
      (fun s e hs hkeep => (read_step fp cfg hkeep).trans hs) hafter hmid

end

/-! ## Two requests that lose their writes -/

def openInsight : InsightRow where
  id := 0
  ruleName := "chargeback"
  resourceId := none
  accountId := some 0
  severity := .warning
  title := "AmazonRDS drift"
  payload := []
  computedAt := 0
  ackStatus := none
  ackAt := none
  ackBy := none

/-- One account with one insight. -/
def oneInsight : State where
  tenants := fun _ => [Write.account ⟨0, "123456789012", none⟩, .insight openInsight].foldl
    applyWrite .empty
  cache := .fresh

def requestOf (operation : Operation) : Request where
  tenant := 0
  auditActor := "machine:default"
  now := 1
  idempotencyKey := none
  raised := none
  operation := operation

def acknowledge : Request := requestOf (.patchInsight 0 ⟨"acknowledged", some "alice"⟩)

def reportUnknown : Request := requestOf (.createInconclusive {
  id := none
  record := ⟨"rds_eol", none, some 0, ["aws.rds.vcpu"], none⟩
  computedAt := none
  owner := none
  dueDate := none
  status := "open" })

def readAgain : Event := .other 0 ⟨id, fun _ _ => False, fun _ _ _ => rfl⟩

theorem acknowledged_and_lost :
    ¬ Durable .exact ⟨false⟩ oneInsight [.write acknowledge, readAgain] ∧
      ¬ Durable .exact ⟨false⟩ oneInsight [.write reportUnknown, readAgain] := by
  constructor
  · intro h
    have hread := h [] acknowledge [] [readAgain] rfl ⟨.insights, 0⟩
      ⟨by decide +kernel, .inl (.inl rfl)⟩ trivial
    revert hread
    decide +kernel
  · intro h
    have hread := h [] reportUnknown [] [readAgain] rfl ⟨.inconclusive, 0⟩
      ⟨by decide +kernel, .inl (.inl rfl)⟩ trivial
    revert hread
    decide +kernel

end Endpoints

end Constat
