import Constat.Completion

/-!
# SingleEvaluation

The collect → evaluate chain of a job under every interleaving of the workers:
`_maybe_run_evaluation` checks the job, claims it by an `UPDATE ... WHERE evaluation_status IS NULL`,
and runs the rules.

* `Justified`     — a claim follows a check of the same worker, a rule follows its worker's claim.
* `EvaluatedOnce` — one worker runs the rules of a job, each at most once and in their order, and
                    only when it has seen every scope of the job with a run and none running.
* `Moves`         — `evaluation_status` goes from null to running and from there to its end.
* `Chain`         — the invariant: what the workers in the chain hold and what is in the log.
-/

namespace Constat

namespace Evaluation

open Trace CollectJobs Collector

/-! ## What the chain promises -/

/-- What the log has to say before a mark. -/
def Justified (before : List Mark) : Mark → Prop
  | .claimed w job => ∃ t, .saw w job t ∈ before
  | .ran w job _ => .claimed w job ∈ before
  | .finished w job => .claimed w job ∈ before
  | _ => True

/-- The rules that have been run for a job. -/
def ranRules (log : List Mark) (job : Uuid) : List String :=
  log.filterMap fun
    | .ran _ j rule => if j = job then some rule else none
    | _ => none

structure EvaluatedOnce (s : State) : Prop where
  single : ∀ job w w' rule rule', .ran w job rule ∈ s.log → .ran w' job rule' ∈ s.log → w = w'
  once : ∀ job, ranRules s.log job <+: sortedRunners
  justified : Along (fun before mark => before ++ [mark]) Justified [] s.log
  complete : ∀ w job t, .saw w job t ∈ s.log → ∃ q ∈ s.requests, q.job.jobId = job ∧
    isJobComplete t job q.job.totalItems = true ∧
      (∀ r ∈ t.sourceRuns, r.jobId = some job → r.status ≠ .running) ∧
        ∀ m ∈ q.messages, Ran job t m.item

/-- The steps of a status. -/
def Moves (a b : Option EvaluationStatus) : Prop :=
  b = a ∨ (a = none ∧ b = some .running) ∨
    (a = some .running ∧ (b = some .success ∨ b = some .failed))

/-- A step moves no status in any other way. -/
def MovesOn (fp : Arith) (s : State) (e : Event) : Prop :=
  ∀ job, Moves (s.evaluation.get? job) ((step fp s e).evaluation.get? job)

/-! ## The invariant -/

/-- The marks and the phases of the chain. -/
def Mark.ofChain : Mark → Bool
  | .saw _ _ _ | .claimed _ _ | .ran _ _ _ | .finished _ _ => true
  | _ => false

def Phase.ofChain : Phase → Bool
  | .complete | .claimed _ _ => true
  | _ => false

structure Chain (s : State) : Prop where
  owner : ∀ job w w', .claimed w job ∈ s.log → .claimed w' job ∈ s.log → w = w'
  unclaimed : ∀ job, s.evaluation.get? job = none →
    (∀ w, .claimed w job ∉ s.log) ∧ ranRules s.log job = []
  claimed : ∀ w m rules failed, s.workers.get? w = some (m, .claimed rules failed) →
    .claimed w m.item.jobId ∈ s.log ∧ s.evaluation.get? m.item.jobId = some .running ∧
      ranRules s.log m.item.jobId ++ rules = sortedRunners
  seen : ∀ w m, s.workers.get? w = some (m, .complete) → ∃ t, .saw w m.item.jobId t ∈ s.log
  once : ∀ job, ranRules s.log job <+: sortedRunners
  justified : Along (fun before mark => before ++ [mark]) Justified [] s.log
  complete : ∀ w job t, .saw w job t ∈ s.log → ∃ q ∈ s.requests, q.job.jobId = job ∧
    isJobComplete t job q.job.totalItems = true ∧
      (∀ r ∈ t.sourceRuns, r.jobId = some job → r.status ≠ .running) ∧
        ∀ m ∈ q.messages, Ran job t m.item

section

variable {fp : Arith} {s s' : State} {q : Request} {m : Message} {job : Uuid}

theorem exec_log (log : List Mark) :
    exec (fun before mark => before ++ [mark]) [] log = log := by
  have hall : ∀ (before log : List Mark),
      exec (fun before mark => before ++ [mark]) before log = before ++ log := by
    intro before log
    induction log generalizing before with
    | nil => simp
    | cons x log ih => rw [exec_cons, ih, List.append_assoc, List.singleton_append]
  exact hall [] log

/-- A log whose last mark is justified by the marks before it. -/
theorem justified_append {log : List Mark} {x : Mark}
    (h : Along (fun before mark => before ++ [mark]) Justified [] log) (hx : Justified log x) :
    Along (fun before mark => before ++ [mark]) Justified [] (log ++ [x]) := by
  rw [Along.append]
  exact ⟨h, by rw [exec_log]; exact hx, trivial⟩

/-- The marks of a justified log are justified by the marks of the log. -/
theorem claimed_of_ran {log : List Mark}
    (h : Along (fun before mark => before ++ [mark]) Justified [] log) {w : Nat} {rule : String}
    (hran : .ran w job rule ∈ log) : .claimed w job ∈ log := by
  obtain ⟨before, later, rfl⟩ := List.append_of_mem hran
  have hclaimed : Justified _ (.ran w job rule) := h.at_step
  rw [exec_log] at hclaimed
  exact List.mem_append_left _ hclaimed

theorem Chain.evaluatedOnce (h : Chain s) : EvaluatedOnce s where
  single job w w' _ _ hran hran' := h.owner job w w' (claimed_of_ran h.justified hran)
    (claimed_of_ran h.justified hran')
  once := h.once
  justified := h.justified
  complete := h.complete

@[simp] theorem ranRules_append (log log' : List Mark) :
    ranRules (log ++ log') job = ranRules log job ++ ranRules log' job := List.filterMap_append

@[simp] theorem ranRules_ran (w : Nat) (j : Uuid) (rule : String) :
    ranRules [.ran w j rule] job = if j = job then [rule] else [] := by
  by_cases h : j = job <;> simp [ranRules, h]

theorem ranRules_of_other {x : Mark} (h : ∀ w rule, x ≠ .ran w job rule) :
    ranRules [x] job = [] := by
  cases x with
  | ran w j rule =>
    rw [ranRules_ran, if_neg]
    rintro rfl
    exact h w rule rfl
  | _ => rfl

/-- A step that is not of the chain: what it marks, and where it leaves the workers, does not
matter here. -/
structure Quiet (s s' : State) : Prop where
  log : ∃ marks : List Mark, s'.log = s.log ++ marks ∧ ∀ x ∈ marks, x.ofChain = false
  evaluation : s'.evaluation = s.evaluation
  requests : ∀ q ∈ s.requests, q ∈ s'.requests
  workers : ∀ w m p, s'.workers.get? w = some (m, p) → p.ofChain = true →
    s.workers.get? w = some (m, p)

theorem ranRules_quiet {marks : List Mark} (h : ∀ x ∈ marks, x.ofChain = false) :
    ranRules marks job = [] := by
  rw [ranRules, List.filterMap_eq_nil_iff]
  intro x hx
  cases x with
  | ran => cases h _ hx
  | _ => rfl

theorem justified_quiet {marks : List Mark} (h : ∀ x ∈ marks, x.ofChain = false) (log : List Mark)
    (hlog : Along (fun before mark => before ++ [mark]) Justified [] log) :
    Along (fun before mark => before ++ [mark]) Justified [] (log ++ marks) := by
  induction marks generalizing log with
  | nil => rwa [List.append_nil]
  | cons x marks ih =>
    have hx : Justified log x := by
      cases x with
      | succeeded | recorded => exact trivial
      | _ => cases h _ List.mem_cons_self
    have hrest := ih (fun y hy => h y (List.mem_cons_of_mem x hy)) _ (justified_append hlog hx)
    rwa [List.append_assoc] at hrest

theorem Chain.quiet (h : Chain s) (hs : Quiet s s') : Chain s' := by
  obtain ⟨marks, hlog, hmarks⟩ := hs.log
  have hmem : ∀ x : Mark, x.ofChain = true → (x ∈ s'.log ↔ x ∈ s.log) := by
    intro x hx
    rw [hlog, List.mem_append]
    refine ⟨fun hx' => hx'.resolve_right fun hnew => ?_, .inl⟩
    rw [hmarks x hnew] at hx
    cases hx
  have hran : ∀ job, ranRules s'.log job = ranRules s.log job := by
    intro job
    rw [hlog, ranRules_append, ranRules_quiet hmarks, List.append_nil]
  constructor
  · intro job w w' hw hw'
    exact h.owner job w w' ((hmem _ rfl).1 hw) ((hmem _ rfl).1 hw')
  · intro job hnone
    rw [hs.evaluation] at hnone
    obtain ⟨hnot, hnil⟩ := h.unclaimed job hnone
    exact ⟨fun w hw => hnot w ((hmem _ rfl).1 hw), (hran job).trans hnil⟩
  · intro w m rules failed hheld
    obtain ⟨hclaimed, hrunning, hrules⟩ := h.claimed w m rules failed (hs.workers w m _ hheld rfl)
    rw [hs.evaluation, hran]
    exact ⟨(hmem _ rfl).2 hclaimed, hrunning, hrules⟩
  · intro w m hheld
    obtain ⟨t, ht⟩ := h.seen w m (hs.workers w m _ hheld rfl)
    exact ⟨t, (hmem _ rfl).2 ht⟩
  · intro job
    rw [hran]
    exact h.once job
  · rw [hlog]
    exact justified_quiet hmarks _ h.justified
  · intro w job t ht
    obtain ⟨q, hq, hrest⟩ := h.complete w job t ((hmem _ rfl).1 ht)
    exact ⟨q, hs.requests q hq, hrest⟩

/-! ## The steps of the chain -/

theorem Quiet.of_free {w : Nat} (hlog : ∃ marks : List Mark, s'.log = s.log ++ marks ∧
      ∀ x ∈ marks, x.ofChain = false)
    (hevaluation : s'.evaluation = s.evaluation) (hrequests : s'.requests = s.requests)
    (hworkers : s'.workers = s.workers.pop w) : Quiet s s' := by
  refine ⟨hlog, hevaluation, fun q hq => hrequests ▸ hq, fun w' m' p hheld hp => ?_⟩
  rw [hworkers, Dict.get?_pop] at hheld
  split at hheld
  · cases hheld
  · exact hheld

theorem Quiet.of_hold {w : Nat} {p : Phase} (hlog : ∃ marks : List Mark,
      s'.log = s.log ++ marks ∧ ∀ x ∈ marks, x.ofChain = false)
    (hevaluation : s'.evaluation = s.evaluation) (hrequests : s'.requests = s.requests)
    (hp : p.ofChain = false) (hworkers : s'.workers = s.workers.set w (m, p)) : Quiet s s' := by
  refine ⟨hlog, hevaluation, fun q hq => hrequests ▸ hq, fun w' m' p' hheld hp' => ?_⟩
  rw [hworkers, Dict.get?_set] at hheld
  split at hheld
  · cases hheld
    rw [hp] at hp'
    cases hp'
  · exact hheld

theorem no_marks : ∃ marks : List Mark, s.log = s.log ++ marks ∧ ∀ x ∈ marks, x.ofChain = false :=
  ⟨[], (List.append_nil _).symm, fun x hx => by cases hx⟩

theorem collected_marks (u : Store) : ∃ marks : List Mark,
    (s.collected job u).log = s.log ++ marks ∧ ∀ x ∈ marks, x.ofChain = false := by
  simp only [State.collected]
  split
  · exact no_marks
  · exact ⟨[.recorded job], rfl, by simp [Mark.ofChain]⟩

variable {w : Nat}

theorem Chain.saw (h : Inv s) (hc : Chain s) (hq : q ∈ s.requests) (hm : m ∈ q.messages)
    (hcomplete : isJobComplete s.store q.job.jobId q.job.totalItems = true) :
    Chain ((s.mark (.saw w q.job.jobId s.store)).hold w m .complete) := by
  constructor <;> simp only [State.hold, State.mark]
  · intro job w₁ w₂ h₁ h₂
    exact hc.owner job w₁ w₂ (by simpa using h₁) (by simpa using h₂)
  · intro job hnone
    obtain ⟨hnot, hnil⟩ := hc.unclaimed job hnone
    exact ⟨by simpa using hnot, by simp [hnil, ranRules_of_other]⟩
  · intro w' m' rules failed hheld
    rw [Dict.get?_set] at hheld
    split at hheld
    · cases hheld
    · obtain ⟨hclaimed, hrunning, hrules⟩ := hc.claimed w' m' rules failed hheld
      exact ⟨List.mem_append_left _ hclaimed, hrunning, by simpa [ranRules_of_other] using hrules⟩
  · intro w' m' hheld
    rw [Dict.get?_set] at hheld
    split at hheld
    · rename_i hw
      cases hheld
      exact ⟨s.store, by simp [hw, jobId_of_mem_messages hm]⟩
    · obtain ⟨t, ht⟩ := hc.seen w' m' hheld
      exact ⟨t, List.mem_append_left _ ht⟩
  · intro job
    simpa [ranRules_of_other] using hc.once job
  · exact justified_append hc.justified trivial
  · intro w' job t ht
    rcases List.mem_append.1 ht with ht | ht
    · exact hc.complete w' job t ht
    · cases List.mem_singleton.1 ht
      have hran := ((isJobComplete_request h hq).1 hcomplete).2
      exact ⟨q, hq, rfl, hcomplete, fun r hr hjob => h.ended r hr (by simp [hjob]), hran⟩

theorem Chain.claim (hc : Chain s) (hm : m ∈ q.messages)
    (hheld : s.workers.get? w = some (m, .complete))
    (hnone : s.evaluation.get? q.job.jobId = none) :
    Chain (((s.setStatus q.job.jobId .running).mark (.claimed w q.job.jobId)).hold w m
      (.claimed sortedRunners false)) := by
  obtain ⟨hnot, hnil⟩ := hc.unclaimed q.job.jobId hnone
  have hid := jobId_of_mem_messages hm
  constructor <;> simp only [State.hold, State.mark, State.setStatus]
  · intro job w₁ w₂ h₁ h₂
    rcases List.mem_append.1 h₁ with h₁ | h₁ <;> rcases List.mem_append.1 h₂ with h₂ | h₂
    · exact hc.owner job w₁ w₂ h₁ h₂
    · cases List.mem_singleton.1 h₂
      exact absurd h₁ (hnot w₁)
    · cases List.mem_singleton.1 h₁
      exact absurd h₂ (hnot w₂)
    · cases List.mem_singleton.1 h₁
      cases List.mem_singleton.1 h₂
      rfl
  · intro job hjob
    rw [Dict.get?_set] at hjob
    split at hjob
    · cases hjob
    · rename_i hne
      obtain ⟨hnot, hnil⟩ := hc.unclaimed job hjob
      exact ⟨by simpa [hne] using hnot, by simp [hnil, ranRules_of_other]⟩
  · intro w' m' rules failed hheld'
    rw [Dict.get?_set] at hheld'
    split at hheld'
    · rename_i hw
      cases hheld'
      rw [hid]
      exact ⟨by simp [hw], by rw [Dict.get?_set, if_pos rfl], by simp [hnil, ranRules_of_other]⟩
    · obtain ⟨hclaimed, hrunning, hrules⟩ := hc.claimed w' m' rules failed hheld'
      have hne : m'.item.jobId ≠ q.job.jobId := fun heq => by
        rw [heq, hnone] at hrunning
        cases hrunning
      refine ⟨List.mem_append_left _ hclaimed, ?_, by simpa [ranRules_of_other] using hrules⟩
      rw [Dict.get?_set, if_neg hne]
      exact hrunning
  · intro w' m' hheld'
    rw [Dict.get?_set] at hheld'
    split at hheld'
    · cases hheld'
    · obtain ⟨t, ht⟩ := hc.seen w' m' hheld'
      exact ⟨t, List.mem_append_left _ ht⟩
  · intro job
    simpa [ranRules_of_other] using hc.once job
  · obtain ⟨t, ht⟩ := hc.seen w m hheld
    exact justified_append hc.justified ⟨t, hid ▸ ht⟩
  · intro w' job t ht
    exact hc.complete w' job t (by simpa using ht)

theorem Chain.rule {rule : String} {rules : List String} {failed failed' : Bool} {u : Store}
    (hc : Chain s) (hm : m ∈ q.messages)
    (hheld : s.workers.get? w = some (m, .claimed (rule :: rules) failed)) :
    Chain (({ s with store := u }.mark (.ran w q.job.jobId rule)).hold w m
      (.claimed rules failed')) := by
  have hid := jobId_of_mem_messages hm
  obtain ⟨hclaimed, hrunning, hrules⟩ := hc.claimed w m _ failed hheld
  rw [hid] at hclaimed hrunning hrules
  constructor <;> simp only [State.hold, State.mark]
  · intro job w₁ w₂ h₁ h₂
    exact hc.owner job w₁ w₂ (by simpa using h₁) (by simpa using h₂)
  · intro job hnone
    have hne : q.job.jobId ≠ job := by
      rintro rfl
      rw [hnone] at hrunning
      cases hrunning
    obtain ⟨hnot, hnil⟩ := hc.unclaimed job hnone
    exact ⟨by simpa using hnot, by simp [hnil, hne]⟩
  · intro w' m' rules' failed'' hheld'
    rw [Dict.get?_set] at hheld'
    split at hheld'
    · rename_i hw
      cases hheld'
      rw [hid]
      exact ⟨by simp [hw, hclaimed], hrunning, by simpa using hrules⟩
    · rename_i hw
      obtain ⟨hclaimed', hrunning', hrules'⟩ := hc.claimed w' m' rules' failed'' hheld'
      have hne : q.job.jobId ≠ m'.item.jobId := fun heq =>
        hw (hc.owner _ w' w (heq ▸ hclaimed') hclaimed)
      exact ⟨List.mem_append_left _ hclaimed', hrunning', by simpa [hne] using hrules'⟩
  · intro w' m' hheld'
    rw [Dict.get?_set] at hheld'
    split at hheld'
    · cases hheld'
    · obtain ⟨t, ht⟩ := hc.seen w' m' hheld'
      exact ⟨t, List.mem_append_left _ ht⟩
  · intro job
    by_cases hjob : q.job.jobId = job
    · refine ⟨rules, ?_⟩
      simpa [hjob] using hjob ▸ hrules
    · simpa [hjob] using hc.once job
  · exact justified_append hc.justified hclaimed
  · intro w' job t ht
    exact hc.complete w' job t (by simpa using ht)

theorem Chain.finish {failed : Bool} {status : EvaluationStatus} (hc : Chain s)
    (hm : m ∈ q.messages) (hheld : s.workers.get? w = some (m, .claimed [] failed)) :
    Chain (((s.setStatus q.job.jobId status).mark (.finished w q.job.jobId)).free w) := by
  have hid := jobId_of_mem_messages hm
  obtain ⟨hclaimed, _, _⟩ := hc.claimed w m _ failed hheld
  rw [hid] at hclaimed
  constructor <;> simp only [State.free, State.mark, State.setStatus]
  · intro job w₁ w₂ h₁ h₂
    exact hc.owner job w₁ w₂ (by simpa using h₁) (by simpa using h₂)
  · intro job hnone
    rw [Dict.get?_set] at hnone
    split at hnone
    · cases hnone
    · obtain ⟨hnot, hnil⟩ := hc.unclaimed job hnone
      exact ⟨by simpa using hnot, by simp [hnil, ranRules_of_other]⟩
  · intro w' m' rules failed' hheld'
    rw [Dict.get?_pop] at hheld'
    split at hheld'
    · cases hheld'
    · rename_i hw
      obtain ⟨hclaimed', hrunning', hrules'⟩ := hc.claimed w' m' rules failed' hheld'
      have hne : m'.item.jobId ≠ q.job.jobId := fun heq =>
        hw (hc.owner _ w' w (heq ▸ hclaimed') hclaimed)
      refine ⟨List.mem_append_left _ hclaimed', ?_, by simpa [ranRules_of_other] using hrules'⟩
      rw [Dict.get?_set, if_neg hne]
      exact hrunning'
  · intro w' m' hheld'
    rw [Dict.get?_pop] at hheld'
    split at hheld'
    · cases hheld'
    · obtain ⟨t, ht⟩ := hc.seen w' m' hheld'
      exact ⟨t, List.mem_append_left _ ht⟩
  · intro job
    simpa [ranRules_of_other] using hc.once job
  · exact justified_append hc.justified hclaimed
  · intro w' job t ht
    exact hc.complete w' job t (by simpa using ht)

theorem Moved.chain {phase : Phase} {act : Act} (h : Inv s) (hc : Chain s) (hq : q ∈ s.requests)
    (hm : m ∈ q.messages) (hheld : s.workers.get? w = some (m, phase))
    (hmoved : Moved fp s w q m phase act s') : Chain s' := by
  cases hmoved with
  | idle => exact hc
  | lookup | ack => exact hc.quiet (.of_hold no_marks rfl rfl rfl rfl)
  | giveUp | incomplete | lost | abandon => exact hc.quiet (.of_free no_marks rfl rfl rfl)
  | @succeed world u hout =>
    obtain ⟨marks, hlog, hmarks⟩ : ∃ marks : List Mark,
      (s.collected q.job.jobId u).log = s.log ++ marks ∧ ∀ x ∈ marks, x.ofChain = false :=
        collected_marks u
    refine hc.quiet (.of_hold ⟨marks ++ [.succeeded m], ?_, ?_⟩ rfl rfl rfl rfl)
    · simp only [State.hold, State.mark, hlog, List.append_assoc]
    · intro x hx
      rcases List.mem_append.1 hx with hx | hx
      · exact hmarks x hx
      · rw [List.mem_singleton.1 hx]
        rfl
  | fail => exact hc.quiet (.of_free (collected_marks _) rfl rfl rfl)
  | saw hcomplete => exact hc.saw h hq hm hcomplete
  | claim hnone => exact hc.claim hm hheld hnone
  | rule => exact hc.rule hm hheld
  | finish => exact hc.finish hm hheld

/-- The rest of the program, and the queue, do nothing that the chain reads. -/
theorem chain_step (h : Inv s) (hc : Chain s) (e : Event) : Chain (step fp s e) := by
  have hsame : ∀ {s' : State}, s'.log = s.log → s'.evaluation = s.evaluation →
      s'.requests = s.requests → s'.workers = s.workers → Chain s' := by
    intro s' hlog hevaluation hrequests hworkers
    refine hc.quiet ⟨hlog ▸ no_marks, hevaluation, fun q hq => hrequests ▸ hq, ?_⟩
    intro w m p hheld _
    rwa [hworkers] at hheld
  cases e with
  | request actor targets force dryRun reached =>
    simp only [step]
    split
    · exact hc
    · exact hc.quiet ⟨no_marks, rfl, fun q hq => mem_accept_requests.2 (.inl hq),
        fun _ _ _ hheld _ => hheld⟩
  | receive worker serial =>
    simp only [step]
    split
    · exact hc.quiet (.of_hold no_marks rfl rfl rfl rfl)
    · exact hc
  | worker w act =>
    simp only [step]
    split
    · exact hc
    · rename_i m phase hheld
      obtain ⟨q, hq, hm⟩ := h.held w m phase hheld
      exact (workerStep_moved fp h hq hm w phase act).chain h hc hq hm hheld
  | deadLetter serial => exact hsame rfl rfl rfl rfl
  | crash worker => exact hc.quiet (.of_free no_marks rfl rfl rfl)
  | purge cutoff => exact hsame rfl rfl rfl rfl
  | other a => exact hsame rfl rfl rfl rfl

theorem chain_start : Chain start := by
  constructor
  · intro job w w' hw
    cases hw
  · exact fun job _ => ⟨fun w hw => (by cases hw), rfl⟩
  · intro w m rules failed hheld
    cases hheld
  · intro w m hheld
    cases hheld
  · exact fun job => List.nil_prefix
  · exact trivial
  · intro w job t ht
    cases ht

theorem Moves.refl (a : Option EvaluationStatus) : Moves a a := .inl rfl

/-- Only the worker that has claimed a job ends its evaluation. -/
theorem step_moves (h : Inv s) (hc : Chain s) (e : Event) : MovesOn fp s e := by
  intro job
  cases e with
  | request actor targets force dryRun reached =>
    simp only [step]
    split <;> exact .refl _
  | receive worker serial =>
    simp only [step]
    split <;> exact .refl _
  | worker w act =>
    simp only [step]
    split
    · exact .refl _
    · rename_i m phase hheld
      obtain ⟨q, hq, hm⟩ := h.held w m phase hheld
      have hmoved := workerStep_moved fp h hq hm w phase act
      generalize workerStep fp s w m phase act = s' at hmoved ⊢
      cases hmoved with
      | claim hnone =>
        simp only [State.hold, State.mark, State.setStatus, Dict.get?_set]
        split
        · rename_i heq
          rw [heq]
          exact .inr (.inl ⟨hnone, rfl⟩)
        · exact .refl _
      | finish failed =>
        simp only [State.free, State.mark, State.setStatus, Dict.get?_set]
        split
        · rename_i heq
          obtain ⟨_, hrunning, _⟩ := hc.claimed w m [] failed hheld
          rw [jobId_of_mem_messages hm] at hrunning
          rw [heq]
          cases failed with
          | false => exact .inr (.inr ⟨hrunning, .inl rfl⟩)
          | true => exact .inr (.inr ⟨hrunning, .inr rfl⟩)
        · exact .refl _
      | _ => exact .refl _
  | deadLetter serial => exact .refl _
  | crash worker => exact .refl _
  | purge cutoff => exact .refl _
  | other a => exact .refl _

/-- For any interleaving of the workers, with redeliveries and crashes: one worker at most runs the
rules of a job, after it has seen the job complete, and the status only moves forward. -/
theorem evaluated_once (fp : Arith) (es : List Event) :
    Always (step fp) EvaluatedOnce start es ∧ Along (step fp) (MovesOn fp) start es := by
  have hstep : ∀ s e, Inv s ∧ Chain s → Inv (step fp s e) ∧ Chain (step fp s e) :=
    fun s e hs => ⟨hs.1.step e, chain_step hs.1 hs.2 e⟩
  have hall : Along (step fp) (fun _ _ => True) start es := Along.of_prefix fun _ _ _ _ => trivial
  constructor
  · exact (Along.always (fun s e hs _ => hstep s e hs) ⟨inv_start, chain_start⟩ hall).mono
      fun s hs => hs.2.evaluatedOnce
  · exact Along.imp_of_inv hstep (fun s e hs _ => step_moves hs.1 hs.2 e) ⟨inv_start, chain_start⟩
      hall

end

end Evaluation

end Constat
