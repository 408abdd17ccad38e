import Constat.Orm

/-!
# Cells

The store row by row: a cell is a table and a primary key, and `Store.read` is what is stored there.
A write touches the cells it puts a row into or deletes a row from; every other cell reads as before
(`read_applyWrite`), also over a whole journal (`read_foldl`).
-/

namespace Constat

inductive TableName where
  | accounts
  | resources
  | observations
  | facts
  | sourceRuns
  | insights
  | insightEvents
  | insightRuns
  | inconclusive
  | collectJobs
  | focusCharges
  | focusChargeTags
  | auditEvents
  | piiClassifications
deriving DecidableEq

structure Cell where
  table : TableName
  key : Nat
deriving DecidableEq

/-- The row in a cell, as the write that puts it there. -/
def Store.read (t : Store) (c : Cell) : Option Write :=
  match c.table with
  | .accounts => (t.accounts.get? c.key).map .account
  | .resources => (t.resources.get? c.key).map .resource
  | .observations => (t.observations.get? c.key).map .observation
  | .facts => (t.facts.get? c.key).map .fact
  | .sourceRuns => (t.sourceRuns.get? c.key).map .sourceRun
  | .insights => (t.insights.get? c.key).map .insight
  | .insightEvents => (t.insightEvents.get? c.key).map .insightEvent
  | .insightRuns => (t.insightRuns.get? c.key).map .insightRun
  | .inconclusive => (t.inconclusive.get? c.key).map .inconclusive
  | .collectJobs => (t.collectJobs.get? c.key).map .collectJob
  | .focusCharges => (t.focusCharges.get? c.key).map .focusCharge
  | .focusChargeTags => (t.focusChargeTags.get? c.key).map .focusChargeTag
  | .auditEvents => (t.auditEvents.get? c.key).map .auditEvent
  | .piiClassifications => (t.piiClassifications.get? c.key).map .piiClassification

namespace Write

/-- The cell a row is put into; a delete has none. -/
def cell : Write → Option Cell
  | .account r => some ⟨.accounts, r.id⟩
  | .resource r => some ⟨.resources, r.id⟩
  | .observation r => some ⟨.observations, r.id⟩
  | .fact r => some ⟨.facts, r.id⟩
  | .sourceRun r => some ⟨.sourceRuns, r.id⟩
  | .insight r => some ⟨.insights, r.id⟩
  | .insightEvent r => some ⟨.insightEvents, r.id⟩
  | .insightRun r => some ⟨.insightRuns, r.id⟩
  | .inconclusive r => some ⟨.inconclusive, r.id⟩
  | .collectJob r => some ⟨.collectJobs, r.jobId⟩
  | .focusCharge r => some ⟨.focusCharges, r.id⟩
  | .focusChargeTag r => some ⟨.focusChargeTags, r.id⟩
  | .auditEvent r => some ⟨.auditEvents, r.id⟩
  | .piiClassification r => some ⟨.piiClassifications, r.id⟩
  | .deleteInsightsOf _ | .deleteInconclusiveOf _ | .deleteChargeTagsOf _ => none

/-- A delete selects a row. -/
def selects : Write → Write → Bool
  | .deleteInsightsOf n, .insight r => r.ruleName = n
  | .deleteInconclusiveOf n, .inconclusive r => r.ruleName = n
  | .deleteChargeTagsOf i, .focusChargeTag r => r.focusChargeId = i
  | _, _ => false

def Touches (t : Store) (w : Write) (c : Cell) : Prop :=
  w.cell = some c ∨ ∃ row, t.read c = some row ∧ w.selects row = true

end Write

theorem read_applyWrite_self {t : Store} {w : Write} {c : Cell} (h : w.cell = some c) :
    (applyWrite t w).read c = some w := by
  cases w <;> cases h <;> simp [Store.read, applyWrite, Table.get?_put]

theorem read_put_ne {t : Store} {w : Write} {c c' : Cell} (h : w.cell = some c') (hne : c ≠ c') :
    (applyWrite t w).read c = t.read c := by
  obtain ⟨table, k⟩ := c
  cases w <;> cases h <;> cases table <;> first
    | rfl
    | (refine congrArg (Option.map _) ((Table.get?_put _ _ _).trans (if_neg fun hk => hne ?_))
       exact congrArg (Cell.mk _) hk)

theorem read_applyWrite {t : Store} {w : Write} {c : Cell} (h : ¬ w.Touches t c) :
    (applyWrite t w).read c = t.read c := by
  cases hcell : w.cell with
  | some c' => exact read_put_ne hcell fun he => h (.inl (he ▸ hcell))
  | none =>
    have hkeep : ∀ row, t.read c = some row → w.selects row = false := by
      intro row hrow
      rw [← Bool.not_eq_true]
      exact fun hselects => h (.inr ⟨row, hrow, hselects⟩)
    obtain ⟨table, k⟩ := c
    cases w <;> cases hcell <;> cases table <;> first
      | rfl
      | (refine congrArg (Option.map _) (Table.get?_deleteWhere fun x hx => ?_)
         exact hkeep _ (congrArg (Option.map _) hx))

/-! ## Journals -/

/-- One of the writes touches the cell, in the store it finds. -/
def Touches (t : Store) : List Write → Cell → Prop
  | [], _ => False
  | w :: ws, c => w.Touches t c ∨ Touches (applyWrite t w) ws c

theorem read_foldl {ws : List Write} {t : Store} {c : Cell} (h : ¬ Touches t ws c) :
    (ws.foldl applyWrite t).read c = t.read c := by
  induction ws generalizing t with
  | nil => rfl
  | cons w ws ih =>
    simp only [Touches, not_or] at h
    rw [List.foldl_cons, ih h.2, read_applyWrite h.1]

end Constat
