import Constat.CollectInvariants
import Constat.Durability
import Constat.History
import Constat.Retention

/-!
# Workflow

The operator workflow of the inconclusive records: `PATCH /inconclusives/{id}` over
`update_workflow`, the posts that are never committed, the scans that bring the resources, the rule
runs that delete and replace the records, `delete_older_than` behind
`POST /admin/cleanup-inconclusives` and its CLI, and the retention policies.

* `step`          — scans, posts, patches, runs, cleanups and retention, with a log of the patches
                    that were accepted and of the resource rules that ran to their end.
* `told`          — what the log says of a record: the patches to it since the last run of its rule.
* `workflow_told` — in every history the owner, the due date and the status of each record are that.
-/

namespace Constat

namespace Workflow

open Endpoints (InconclusiveIn WorkflowPatchIn statusOf workflowStatuses isSuccess)
open RunFailures (Plan Call Looped Stage afterCall runUnder conduct)
open Runner
open Session (WritesOnly)
open Trace

structure Fields where
  owner : Option String
  dueDate : Option Date
  status : InconclusiveStatus
deriving DecidableEq

def untouched : Fields := ⟨none, none, .opened⟩

def fieldsOf (r : InconclusiveRow) : Fields := ⟨r.owner, r.dueDate, r.status⟩

/-- The status of a body that is valid. -/
def statusIn (body : WorkflowPatchIn) : Option InconclusiveStatus :=
  body.status.join.bind (statusOf workflowStatuses)

/-- A field that was not sent is left as it is. -/
def patched (body : WorkflowPatchIn) (f : Fields) : Fields where
  owner := body.owner.getD f.owner
  dueDate := body.dueDate.getD f.dueDate
  status := (statusIn body).getD f.status

/-! ## Cleanup -/

/-- `delete_older_than`. -/
def deleteOlderThan (t : Store) (olderThanDays : Int) (now : Micros) :
    Except PyError (Store × Nat) :=
  if olderThanDays < 0 then
    .error ⟨"ValueError", "older_than_days must be >= 0, got " ++ toString olderThanDays⟩
  else
    match Retention.cutoff now olderThanDays with
    | .error e => .error e
    | .ok cutoff => .ok ({ t with inconclusive :=
        t.inconclusive.deleteWhere fun r => decide (r.computedAt < cutoff) },
        t.inconclusive.rows.countP fun r => r.computedAt < cutoff)

/-! ## Histories -/

/-- `db` with `t` for the store of the tenant `bound`. -/
def holding (db : Retention.Database) (bound : Uuid) (t : Store) : Retention.Database :=
  Function.update db bound { db bound with store := t }

/-- A call of `retention` comes with what the database holds beside the store of the tenant. -/
inductive Event where
  | scan (target : Collector.TargetAccount) (options : Collector.Options)
      (world : Collector.World)
  | create (body : InconclusiveIn) (now : Micros) (raised : Option PyError)
  | patch (id : Uuid) (body : WorkflowPatchIn) (actor : String) (raised : Option PyError)
  | run (plan : Plan) (call : Call) (commits : Bool)
  | cleanup (olderThanDays : Int) (now : Micros)
  | retention (db : Retention.Database) (bound : Uuid) (world : Retention.World)

inductive Mark where
  | patched (id : Uuid) (body : WorkflowPatchIn)
  | ran (ruleName : String)

structure State where
  store : Store
  log : List Mark

def start : State := ⟨.empty, []⟩

/-- A run of a resource rule that has returned. -/
def ranMark (call : Call) (raised : Option PyError) : List Mark :=
  match call, raised with
  | .resource rule _, none => [.ran rule.name]
  | _, _ => []

def step (fp : Arith) (s : State) : Event → State
  | .scan target options world => ⟨Collector.collectStep target options world s.store, s.log⟩
  | .create body now raised =>
    ⟨(Endpoints.createInconclusiveEndpoint body now raised (.begin s.store)).1.close, s.log⟩
  | .patch id body actor raised =>
    let out := Endpoints.patchInconclusiveEndpoint id body actor raised (.begin s.store)
    ⟨out.1.close, if isSuccess out.2 then s.log ++ [.patched id body] else s.log⟩
  | .run plan call commits =>
    let out := runUnder plan fp (.begin s.store) call
    ⟨afterCall commits out, s.log ++ ranMark call out.2⟩
  | .cleanup olderThanDays now =>
    match deleteOlderThan s.store olderThanDays now with
    | .error _ => s
    | .ok (t, _) => ⟨t, s.log⟩
  | .retention db bound world =>
    match Retention.applyAllEnabled (holding db bound s.store) bound world with
    | .error _ => s
    | .ok (db', _) => ⟨(db' bound).store, s.log⟩

/-- What a mark says of a record. -/
def tell (id : Uuid) (ruleName : String) (f : Fields) : Mark → Fields
  | .patched id' body => if id' = id then patched body f else f
  | .ran name => if name = ruleName then untouched else f

def told (log : List Mark) (id : Uuid) (ruleName : String) : Fields :=
  log.foldl (tell id ruleName) untouched

/-! ## Patches -/

/-- A patch is refused and writes nothing, or it puts the record with its fields patched. -/
theorem patch_cases (id : Uuid) (body : WorkflowPatchIn) (actor : String)
    (raised : Option PyError) (t : Store) :
    let out := Endpoints.patchInconclusiveEndpoint id body actor raised (.begin t)
    (isSuccess out.2 = false ∧ out.1.close = t) ∨
      (isSuccess out.2 = true ∧ ∃ row row', t.inconclusive.get? id = some row ∧
        out.1.close.inconclusive = t.inconclusive.put row' ∧ row'.id = id ∧
        row'.ruleName = row.ruleName ∧ fieldsOf row' = patched body (fieldsOf row)) := by
  have hupdate : ∀ status, statusIn body = status →
      let out := Endpoints.unlessRaised raised (.begin t)
        (Endpoints.updateWorkflow id body status actor (.begin t))
      (isSuccess out.2 = false ∧ out.1.close = t) ∨
        (isSuccess out.2 = true ∧ ∃ row row', t.inconclusive.get? id = some row ∧
          out.1.close.inconclusive = t.inconclusive.put row' ∧ row'.id = id ∧
          row'.ruleName = row.ruleName ∧ fieldsOf row' = patched body (fieldsOf row)) := by
    intro status hstatus
    cases raised with
    | some e => exact .inl ⟨rfl, rfl⟩
    | none =>
      simp only [Endpoints.unlessRaised, Endpoints.updateWorkflow, Session.begin_working]
      cases hrow : t.inconclusive.get? id with
      | none => exact .inl ⟨rfl, rfl⟩
      | some row =>
        refine .inr ⟨rfl, row, body.apply status row, rfl, rfl, ?_, rfl, ?_⟩
        · exact (Table.get?_eq_some.1 hrow).2
        · simp [fieldsOf, patched, WorkflowPatchIn.apply, hstatus]
  intro out
  simp only [out, Endpoints.patchInconclusiveEndpoint]
  cases hbody : body.status with
  | none => exact hupdate none (by simp [statusIn, hbody])
  | some given =>
    cases given with
    | none => exact .inl ⟨rfl, rfl⟩
    | some text =>
      simp only
      cases hstatus : statusOf workflowStatuses text with
      | none => exact .inl ⟨rfl, rfl⟩
      | some status => exact hupdate (some status) (by simp [statusIn, hbody, hstatus])

/-! ## Runs -/

/-- The records that are not kept are gone; the new ones have keys of their own and are untouched. -/
structure Grew (kept : InconclusiveRow → Prop) (t u : Store) : Prop where
  next : t.inconclusive.next ≤ u.inconclusive.next
  rows : ∀ r ∈ u.inconclusive, (r ∈ t.inconclusive ∧ kept r) ∨
    (t.inconclusive.next ≤ r.id ∧ fieldsOf r = untouched)

def everyRow (_ : InconclusiveRow) : Prop := True

namespace Grew

variable {kept : InconclusiveRow → Prop} {t u v : Store}

theorem of_eq (h : u.inconclusive = t.inconclusive) : Grew everyRow t u where
  next := by rw [h]
  rows := by
    intro r hr
    rw [h] at hr
    exact .inl ⟨hr, trivial⟩

theorem trans (h : Grew kept t u) (h' : Grew everyRow u v) : Grew kept t v where
  next := h.next.trans h'.next
  rows := by
    intro r hr
    rcases h'.rows r hr with ⟨hr, _⟩ | ⟨hid, hfields⟩
    · exact h.rows r hr
    · exact .inr ⟨h.next.trans hid, hfields⟩

theorem of_appended {now : Micros} {is : List Insight} {incs : List Inconclusive}
    (h : Appended now t u is incs) : Grew everyRow t u where
  next := by
    rw [h.inconclusiveNext]
    exact Nat.le_add_right _ _
  rows := by
    intro r hr
    rw [Table.mem_def, h.inconclusive, List.mem_append] at hr
    rcases hr with hr | hr
    · exact .inl ⟨hr, trivial⟩
    · obtain ⟨p, hp, rfl⟩ := List.mem_map.1 hr
      exact .inr ⟨List.le_snd_of_mem_zipIdx hp, rfl⟩

theorem of_deleteWhere {p : InconclusiveRow → Bool}
    (h : u.inconclusive = t.inconclusive.deleteWhere p) :
    Grew (fun r => p r = false) t u where
  next := by rw [h, Table.next_deleteWhere]
  rows := by
    intro r hr
    rw [h, Table.mem_deleteWhere] at hr
    exact .inl hr

end Grew

theorem grew_of_insight {s s' : DbSession} (h : WritesOnly isInsight s s') :
    Grew everyRow s.working s'.working :=
  .of_eq (h.frame Store.inconclusive fun w hw _ => by cases w <;> first | rfl | cases hw)

theorem grew_of_event {s s' : DbSession} (h : WritesOnly isEvent s s') :
    Grew everyRow s.working s'.working :=
  .of_eq (h.frame Store.inconclusive fun w hw _ => by cases w <;> first | rfl | cases hw)

theorem grew_of_adds {name : String} {now : Micros} {s s' : DbSession}
    (h : RunFailures.Adds name now s s') : Grew everyRow s.working s'.working := by
  obtain ⟨is, incs, happended, _⟩ := h.rows
  exact .of_appended happended

theorem grew_foldl {stages : List Stage}
    (h : ∀ st ∈ stages, ∀ s, Grew everyRow s.working (st.2 s).working) (s : DbSession) :
    Grew everyRow s.working (stages.foldl (fun s st => st.2 s) s).working := by
  induction stages generalizing s with
  | nil => exact .of_eq rfl
  | cons st stages ih =>
    exact (h st List.mem_cons_self s).trans
      (ih (fun st' hst' => h st' (List.mem_cons_of_mem st hst')) (st.2 s))

/-- How a run leaves the records of `t`: it returns, or it raises and they are as they were. -/
def Ends (kept : InconclusiveRow → Prop) (t : Store) (out : DbSession × Option PyError) : Prop :=
  (out.2 = none ∧ Grew kept t out.1.committed) ∨
    (out.2 ≠ none ∧ Grew everyRow t out.1.committed)

theorem ends_of_conduct {α β : Type} {plan : Plan} {before : List Stage}
    {loop : DbSession → Looped α} {after : Looped α → List Stage}
    {last : Looped α → DbSession → DbSession} {s : DbSession} {kept : InconclusiveRow → Prop}
    {t : Store} {f : α → β} (hs : s.committed.inconclusive = t.inconclusive)
    (hstart : Grew kept t (RunFailures.loopAfter before loop s).session.working)
    (hbefore : RunFailures.Pending before) (hloop : ∀ s, (loop s).session.committed = s.committed)
    (hafter : ∀ looped, RunFailures.Pending (after looped))
    (hrest : ∀ looped, ∀ st ∈ after looped, ∀ s, Grew everyRow s.working (st.2 s).working)
    (hlast : ∀ looped s, (last looped s).committed = s.committed)
    (hlast' : ∀ looped s, Grew everyRow s.working (last looped s).working) :
    Ends kept t ((conduct plan before loop after last s).1,
      RunFailures.raised ((conduct plan before loop after last s).2.map f)) := by
  by_cases h : RunFailures.Survives plan before loop after s
  · have hrun := RunFailures.conduct_of_survives last h
    let looped := RunFailures.loopAfter before loop s
    have hend := (grew_foldl (hrest looped) looped.session).trans (hlast' looped _)
    exact .inl ⟨by rw [hrun]; rfl, by rw [hrun]; exact hstart.trans hend⟩
  · obtain ⟨e, herror, hcommitted⟩ := RunFailures.conduct_of_not_survives last h hbefore hloop
      hafter hlast
    refine .inr ⟨?_, ?_⟩
    · rw [herror]
      simp [Except.map, RunFailures.raised]
    · rw [hcommitted]
      exact .of_eq hs

theorem ends_begin {kept : InconclusiveRow → Prop} (t : Store) (ws : List Write) (e : PyError) :
    Ends kept t ((Session.begin t).writes ws, some e) := by
  refine .inr ⟨by simp, ?_⟩
  rw [Session.writes_committed]
  exact .of_eq rfl

theorem ends_resource (plan : Plan) (fp : Arith) (rule : ResourceRule) (env : RunEnv)
    (t : Store) : Ends (fun r => decide (r.ruleName = rule.name) = false) t
      (runUnder plan fp (.begin t) (.resource rule env)) := by
  cases hbegin : plan.stage .begin with
  | some failure =>
    simp only [runUnder, RunFailures.runResourceRuleUnder, hbegin]
    exact ends_begin t _ _
  | none =>
    have hdeleted : ((RunFailures.resourceBefore rule).foldl (fun s st => st.2 s)
        (beginRun (.begin t) rule env)).working.inconclusive =
          t.inconclusive.deleteWhere fun r => r.ruleName = rule.name := rfl
    simp only [runUnder, RunFailures.runResourceRuleUnder, hbegin]
    refine ends_of_conduct rfl ((Grew.of_deleteWhere hdeleted).trans
        (grew_of_adds (RunFailures.adds_evaluateAll plan rule env _)))
      (RunFailures.body_resourceBefore rule).pending
      (fun s => (RunFailures.evaluateAllUnder_writes plan rule env s).committed)
      (fun _ => (RunFailures.body_resourceAfter fp rule env _ _).pending) ?_ (fun _ _ => rfl)
      (fun _ _ => .of_eq rfl)
    intro _ st hst s
    simp only [RunFailures.resourceAfter, List.mem_cons, List.not_mem_nil, or_false] at hst
    rcases hst with rfl | rfl | rfl
    · exact grew_of_insight (writesOnly_insights _ _)
    · exact grew_of_insight (writesOnly_insights _ _)
    · exact grew_of_event (diffAndRecordEvents_spec fp s rule.name _ _ env.now).1

theorem ends_chargeback (plan : Plan) (fp : Arith) (env : Chargeback.Env) (t : Store) :
    Ends everyRow t (runUnder plan fp (.begin t) (.chargeback env)) := by
  cases hbegin : plan.stage .begin with
  | some failure =>
    simp only [runUnder, RunFailures.runChargebackUnder, hbegin]
    exact ends_begin t _ _
  | none =>
    have hkept : (RunFailures.chargebackBefore.foldl (fun s st => st.2 s)
        ((Session.begin t).write (.insightRun (newInsightRun t "chargeback" env.now))).commit
          ).working.inconclusive = t.inconclusive := rfl
    simp only [runUnder, RunFailures.runChargebackUnder, hbegin]
    refine ends_of_conduct rfl ((Grew.of_eq hkept).trans
        (grew_of_adds (RunFailures.adds_addAccounts plan fp env _)))
      RunFailures.body_chargebackBefore.pending
      (fun s => (RunFailures.addAccountsUnder_writes plan fp env s).committed)
      (RunFailures.pending_chargebackAfter fp env _ _ _) ?_ (fun _ _ => rfl)
      (fun _ _ => .of_eq rfl)
    intro looped st hst s
    simp only [RunFailures.chargebackAfter, List.mem_cons, List.not_mem_nil, or_false] at hst
    rcases hst with rfl | rfl | rfl
    · exact (Grew.of_eq rfl : Grew everyRow s.working (s.write (.insightRun _)).working).trans
        (grew_of_insight (writesOnly_insights _ _))
    · exact grew_of_event (diffAndRecordEvents_spec fp s "chargeback" _ _ env.now).1
    · exact .of_eq rfl

/-- Whether or not the caller of a run commits once more, it finds what the run has committed. -/
theorem afterCall_eq (plan : Plan) (fp : Arith) (call : Call) (commits : Bool) (t : Store) :
    afterCall commits (runUnder plan fp (.begin t) call) =
      (runUnder plan fp (.begin t) call).1.committed := by
  have hpending : (runUnder plan fp (.begin t) call).2 = none →
      (runUnder plan fp (.begin t) call).1.pending = [] := by
    intro hnone
    cases call with
    | resource rule env =>
      cases hout : (RunFailures.runResourceRuleUnder plan fp rule env (.begin t)).2 with
      | error e => simp [runUnder, hout, RunFailures.raised] at hnone
      | ok result => exact RunFailures.runResourceRuleUnder_pending hout
    | chargeback env =>
      cases hout : (RunFailures.runChargebackUnder plan fp env (.begin t)).2 with
      | error e => simp [runUnder, hout, RunFailures.raised] at hnone
      | ok result => exact RunFailures.runChargebackUnder_pending hout
  unfold afterCall
  cases hraised : (runUnder plan fp (.begin t) call).2 with
  | some e => rfl
  | none =>
    cases commits with
    | false => rfl
    | true => exact Session.working_of_pending_nil (hpending hraised)

/-! ## The log -/

theorem told_append (log : List Mark) (m : Mark) (id : Uuid) (ruleName : String) :
    told (log ++ [m]) id ruleName = tell id ruleName (told log id ruleName) m := by
  simp [told]

/-- Of a record that nobody has patched the log says nothing. -/
theorem told_of_not_patched {log : List Mark} {id : Uuid} (h : ∀ body, .patched id body ∉ log)
    (ruleName : String) : told log id ruleName = untouched := by
  induction log using List.reverseRecOn with
  | nil => rfl
  | append_singleton log m ih =>
    rw [told_append, ih fun body hmem => h body (List.mem_append_left _ hmem)]
    cases m with
    | patched id' body =>
      have hne : id' ≠ id := by
        rintro rfl
        exact h body (List.mem_append_right _ List.mem_cons_self)
      exact if_neg hne
    | ran name => simp [tell]

/-- The records are as the log says, and only ids that have been given out are patched. -/
structure Coherent (s : State) : Prop where
  rows : ∀ r ∈ s.store.inconclusive, fieldsOf r = told s.log r.id r.ruleName
  issued : ∀ id body, .patched id body ∈ s.log → id < s.store.inconclusive.next

theorem coherent_start : Coherent start where
  rows := fun r hr => absurd hr (Table.not_mem_empty r)
  issued := fun _ _ hmem => absurd hmem List.not_mem_nil

/-- A step that only drops records and adds untouched ones, and says which ones it drops. -/
theorem coherent_grew {s : State} {u : Store} {kept : InconclusiveRow → Prop} (marks : List Mark)
    (h : Coherent s) (hgrew : Grew kept s.store u)
    (hkept : ∀ r, kept r → told (s.log ++ marks) r.id r.ruleName = told s.log r.id r.ruleName)
    (hmarks : ∀ id body, .patched id body ∉ marks) : Coherent ⟨u, s.log ++ marks⟩ where
  rows := by
    intro r hr
    rcases hgrew.rows r hr with ⟨hr, hr'⟩ | ⟨hid, hfields⟩
    · rw [hkept r hr']
      exact h.rows r hr
    · have hnone : ∀ body, .patched r.id body ∉ s.log ++ marks := by
        intro body hmem
        rcases List.mem_append.1 hmem with hmem | hmem
        · exact absurd (h.issued r.id body hmem) (Nat.not_lt.2 hid)
        · exact hmarks r.id body hmem
      rw [told_of_not_patched hnone]
      exact hfields
  issued := by
    intro id body hmem
    rcases List.mem_append.1 hmem with hmem | hmem
    · exact (h.issued id body hmem).trans_le hgrew.next
    · exact absurd hmem (hmarks id body)

theorem coherent_dropped {s : State} {u : Store} {kept : InconclusiveRow → Prop}
    (h : Coherent s) (hgrew : Grew kept s.store u) : Coherent ⟨u, s.log⟩ := by
  have hsame := coherent_grew [] h hgrew (fun r _ => by rw [List.append_nil])
    fun _ _ => List.not_mem_nil
  rwa [List.append_nil] at hsame

theorem coherent_patch {s : State} {u : Store} {id : Uuid} {body : WorkflowPatchIn}
    {row row' : InconclusiveRow} (h : Coherent s) (hrow : s.store.inconclusive.get? id = some row)
    (hu : u.inconclusive = s.store.inconclusive.put row') (hid : row'.id = id)
    (hrule : row'.ruleName = row.ruleName) (hfields : fieldsOf row' = patched body (fieldsOf row)) :
    Coherent ⟨u, s.log ++ [.patched id body]⟩ := by
  obtain ⟨hmem, hkey⟩ := Table.get?_eq_some.1 hrow
  refine ⟨fun r hr => ?_, fun id' body' hmem' => ?_⟩
  · simp only [hu, Table.mem_put] at hr
    rw [told_append]
    rcases hr with rfl | ⟨hr, hne⟩
    · rw [hid, hrule, hfields, h.rows row hmem, ← hkey]
      simp [tell]
    · have hother : id ≠ r.id := by
        intro heq
        exact hne (heq ▸ hid.symm)
      rw [h.rows r hr]
      exact (if_neg hother).symm
  · have hnext : s.store.inconclusive.next ≤ (s.store.inconclusive.put row').next :=
      Nat.le_max_left _ _
    have hlt : row.id < s.store.inconclusive.next := s.store.inconclusive.lt_next row hmem
    rw [hu]
    rcases List.mem_append.1 hmem' with hmem' | hmem'
    · exact (h.issued id' body' hmem').trans_le hnext
    · obtain ⟨rfl, -⟩ := Mark.patched.inj (List.mem_singleton.1 hmem')
      exact (hkey ▸ hlt).trans_le hnext

theorem coherent_run {s : State} {plan : Plan} {fp : Arith} {call : Call} (h : Coherent s) :
    let out := runUnder plan fp (.begin s.store) call
    Coherent ⟨out.1.committed, s.log ++ ranMark call out.2⟩ := by
  intro out
  cases call with
  | chargeback env =>
    have hmarks : ranMark (.chargeback env) out.2 = [] := rfl
    rw [hmarks, List.append_nil]
    rcases ends_chargeback plan fp env s.store with ⟨_, hgrew⟩ | ⟨_, hgrew⟩
    · exact coherent_dropped h hgrew
    · exact coherent_dropped h hgrew
  | resource rule env =>
    rcases ends_resource plan fp rule env s.store with ⟨hnone, hgrew⟩ | ⟨hsome, hgrew⟩
    · have hmarks : ranMark (.resource rule env) out.2 = [.ran rule.name] := by
        simp only [out, hnone, ranMark]
      rw [hmarks]
      refine coherent_grew _ h hgrew (fun r hr => ?_) (fun id body => by simp)
      rw [told_append]
      exact if_neg fun heq => of_decide_eq_false hr heq.symm
    · have hmarks : ranMark (.resource rule env) out.2 = [] := by
        cases hout : out.2 with
        | none => exact absurd hout hsome
        | some e => rfl
      rw [hmarks, List.append_nil]
      exact coherent_dropped h hgrew

/-! ## Scans and retention -/

/-- No write of a collection is to the records. -/
theorem kept_inconclusive (t : Store) :
    Collector.Kept fun u => u.inconclusive = t.inconclusive where
  aside := by
    intro u w hw hu
    cases w <;> first | exact hu | cases hw
  account := fun _ _ _ hu => hu
  resource := fun _ _ hu => hu
  observation := fun _ _ hu => hu
  fact := fun _ _ _ hu => hu

theorem grew_of_scan (target : Collector.TargetAccount) (options : Collector.Options)
    (world : Collector.World) (t : Store) :
    Grew everyRow t (Collector.collectStep target options world t) :=
  .of_eq ((kept_inconclusive t).collectStep target options world rfl)

theorem grew_of_retention {db db' : Retention.Database} {bound : Uuid} {world : Retention.World}
    {results : Dict String Int} (t : Store)
    (h : Retention.applyAllEnabled (holding db bound t) bound world = .ok (db', results)) :
    ∃ kept, Grew kept t (db' bound).store := by
  have hstore : (holding db bound t bound).store = t := by simp [holding]
  by_cases hbound : bound = defaultTenantId
  · subst hbound
    have hfits : ∀ p ∈ (holding db defaultTenantId t defaultTenantId).policies,
        p.enabled = true → ¬ Retention.Overflows world p := fun p hp henabled =>
      Retention.applyPolicies_overflows (Retention.applyAllEnabled_ok.1 h) p
        (Retention.mem_fetch.2 ⟨hp, henabled⟩)
    obtain ⟨after, results', hrun, hcontained⟩ := (Retention.contained_default _ world).2 hfits
    rw [h] at hrun
    cases hrun
    exact ⟨_, .of_deleteWhere (by rw [hcontained.purged, Retention.purge, hstore])⟩
  · rw [Retention.applyAllEnabled_other _ hbound] at h
    cases h
    exact ⟨everyRow, .of_eq (by rw [hstore])⟩

theorem create_close (body : InconclusiveIn) (now : Micros) (raised : Option PyError) (t : Store) :
    (Endpoints.createInconclusiveEndpoint body now raised (.begin t)).1.close = t := by
  unfold Endpoints.createInconclusiveEndpoint
  cases raised with
  | some e => rfl
  | none =>
    simp only [Endpoints.unlessRaised_none, Session.begin_working]
    cases statusOf workflowStatuses body.status with
    | none => rfl
    | some status => cases t.inconclusive.get? (body.id.getD t.inconclusive.next) <;> rfl

theorem coherent_step {s : State} (fp : Arith) (e : Event) (h : Coherent s) :
    Coherent (step fp s e) := by
  cases e with
  | scan target options world => exact coherent_dropped h (grew_of_scan target options world _)
  | create body now raised =>
    unfold step
    simp only [create_close]
    exact h
  | patch id body actor raised =>
    unfold step
    rcases patch_cases id body actor raised s.store with
      ⟨hrefused, hclose⟩ | ⟨hsuccess, row, row', hrow, hput, hid, hrule, hfields⟩
    · simp only [hrefused, hclose]
      exact h
    · simp only [hsuccess, if_true]
      exact coherent_patch h hrow hput hid hrule hfields
  | run plan call commits =>
    unfold step
    simp only [afterCall_eq]
    exact coherent_run h
  | cleanup olderThanDays now =>
    unfold step deleteOlderThan
    by_cases hneg : olderThanDays < 0
    · simp only [if_pos hneg]
      exact h
    · simp only [if_neg hneg]
      cases hcutoff : Retention.cutoff now olderThanDays with
      | error e => exact h
      | ok cutoff => exact coherent_dropped h (Grew.of_deleteWhere rfl)
  | retention db bound world =>
    cases hrun : Retention.applyAllEnabled (holding db bound s.store) bound world with
    | error e =>
      simp only [step, hrun]
      exact h
    | ok out =>
      obtain ⟨kept, hgrew⟩ := grew_of_retention s.store hrun
      simp only [step, hrun]
      exact coherent_dropped h hgrew

theorem workflow_told (fp : Arith) (es : List Event) : Coherent (exec (step fp) start es) := by
  induction es using List.reverseRecOn with
  | nil => exact coherent_start
  | append_singleton es e ih =>
    rw [exec_append]
    exact coherent_step fp e ih

def ofHistory : History.Event → Event
  | .collect target options world => .scan target options world
  | .ruleRun rule env => .run .clean (.resource rule env) false

/-- A rule run that finds the scope of a scan stale, and a patch to the record of it. -/
example : (exec (step .double) start (([History.rdsScan History.tenthOfDecember [History.ordersDb],
    .ruleRun History.rdsEolRule ⟨History.tenthOfDecember + 2 * Micros.day,
      Date.ofYmd 2026 12 12, some defaultScopeMaxAge⟩].map ofHistory) ++
    [.patch 0 ⟨some (some "ops"), none, some (some "acknowledged")⟩ "ops" none])
      ).store.inconclusive.rows.map fieldsOf = [⟨some "ops", none, .acknowledged⟩] := by
  decide +kernel

end Workflow

end Constat
