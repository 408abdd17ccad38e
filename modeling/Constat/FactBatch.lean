import Constat.Collectors.Ec2
import Constat.FactView

/-!
# FactBatch

One `upsert_facts` call for several facts against one call a fact. The lookups of a batch do not
see what the batch adds, so a second fact of a new key is added a second time: the flush fails on
the unique key, or leaves two rows when the key has no resource.

* `upsertEach`  — the facts one call at a time.
* `Storable`    — none of those calls raises.
* `DistinctNew` — the facts without a stored row have different keys.
* `FoldsBatch`  — the batch does what the single calls do.
-/

namespace Constat

namespace Facts

def upsertEach (s : DbSession) (facts : List Fact) (run : Option Uuid) :
    Except DbError DbSession :=
  facts.foldlM (fun s f => (upsertFacts s [f] run).map (·.1)) s

/-- The facts of a batch that have no stored row. -/
def newFacts (t : Store) (facts : List Fact) : List Fact :=
  facts.filter fun f => (matching t f).isEmpty

def DistinctNew (t : Store) (facts : List Fact) : Prop := ((newFacts t facts).map keyOf).Nodup

/-- The resource and the account of a fact are stored, as far as it names them. -/
def referencesExist (t : Store) (f : Fact) : Bool :=
  f.resourceId.all (fun id => (t.resources.get? id).isSome) &&
    f.accountId.all fun id => (t.accounts.get? id).isSome

/-- Every key has at most one row, and the first fact of a key without one can be inserted. -/
structure Storable (t : Store) (facts : List Fact) : Prop where
  one : ∀ f ∈ facts, ∃ o, RowAt t.facts (keyOf f) o
  first : ∀ f, facts.find? (fun g => keyOf g = keyOf f) = some f → RowAt t.facts (keyOf f) none →
    referencesExist t f = true

/-- The batch leaves the store that the single calls leave, with one row for each of its keys. When
a single call raises, so does the batch, and never for its unique key. -/
structure FoldsBatch (s : DbSession) (facts : List Fact) (run : Option Uuid) : Prop where
  stored : ∀ s₁, upsertEach s facts run = .ok s₁ →
    ∃ s' counts, upsertFacts s facts run = .ok (s', counts) ∧ s'.working = s₁.working ∧
      ∀ f ∈ facts, ∃ row, RowAt s'.working.facts (keyOf f) (some row)
  refused : ∀ e, upsertEach s facts run = .error e → ∃ e', upsertFacts s facts run = .error e'
  unique : upsertFacts s facts run = .error .integrityError →
    ∃ f ∈ facts, RowAt s.working.facts (keyOf f) none ∧ referencesExist s.working f = false

section

variable {t : Store} {s : DbSession} {f : Fact} {facts : List Fact} {run : Option Uuid}

/-! ## When a batch goes through -/

theorem matching_of_rowAt_eq {o : Option FactRow} (h : RowAt t.facts (keyOf f) o) :
    matching t f = o.toList := by
  have hone := matching_of_rowAt h
  cases o with
  | none => exact eq_nil_of_scalarOneOrNone hone
  | some row => exact eq_singleton_of_scalarOneOrNone hone

theorem rowAt_none_iff : RowAt t.facts (keyOf f) none ↔ (matching t f).isEmpty = true := by
  constructor
  · intro h
    rw [matching_of_rowAt_eq h]
    rfl
  · intro h
    refine rowAt_of_matching ?_
    rw [List.isEmpty_iff.1 h]
    rfl

theorem flushable_iff : flushable t facts = true ↔
    (∀ f ∈ newFacts t facts, referencesExist t f = true) ∧
      (((newFacts t facts).filter fun f => f.resourceId.isSome).map keyOf).Nodup := by
  rw [flushable, Bool.and_eq_true, decide_eq_true_eq, List.all_eq_true]
  rfl

theorem upsertFacts_ok_iff (run : Option Uuid) :
    (∃ s' counts, upsertFacts s facts run = .ok (s', counts)) ↔
    (∀ f ∈ facts, ∃ o, RowAt s.working.facts (keyOf f) o) ∧ flushable s.working facts = true := by
  constructor
  · rintro ⟨s', counts, h⟩
    refine ⟨(upsertFacts_cases h).2, ?_⟩
    simp only [upsertFacts] at h
    split at h
    · cases h
    · split at h
      · assumption
      · cases h
  · rintro ⟨hone, hflush⟩
    obtain ⟨b, hb⟩ : ∃ b, facts.foldlM (addFact s.working run) ⟨[], 0, 0⟩ = .ok b :=
      addFacts_ok hone
    exact ⟨_, _, by simp only [upsertFacts, hb, hflush]; rfl⟩

theorem mem_newFacts : f ∈ newFacts t facts ↔ f ∈ facts ∧ RowAt t.facts (keyOf f) none := by
  rw [newFacts, List.mem_filter, rowAt_none_iff]

theorem upsertFacts_single_ok_iff (run : Option Uuid) :
    (∃ s' counts, upsertFacts s [f] run = .ok (s', counts)) ↔
    (∃ o, RowAt s.working.facts (keyOf f) o) ∧
      (RowAt s.working.facts (keyOf f) none → referencesExist s.working f = true) := by
  have hnodup : (((newFacts s.working [f]).filter fun f => f.resourceId.isSome).map keyOf).Nodup :=
    (List.nodup_singleton (keyOf f)).sublist
      ((List.filter_sublist.trans List.filter_sublist).map keyOf)
  rw [upsertFacts_ok_iff, flushable_iff, and_iff_left hnodup]
  refine and_congr (by simp) ?_
  constructor
  · exact fun h hnone => h f (mem_newFacts.2 ⟨List.mem_singleton_self f, hnone⟩)
  · intro h g hg
    obtain ⟨hmem, hnone⟩ := mem_newFacts.1 hg
    rw [List.mem_singleton] at hmem
    subst hmem
    exact h hnone

/-! ## One fact -/

/-- The row a fact leaves under its key. -/
def rowOf (t : Store) (f : Fact) (run : Option Uuid) : Option FactRow → FactRow
  | none => newRow t.facts.next f run
  | some old => updatedRow old f run

theorem rowsFrom_single {o : Option FactRow} (h : RowAt t.facts (keyOf f) o) :
    rowsFrom t run 0 [f] = [rowOf t f run o] := by
  rw [rowsFrom, matching_of_rowAt_eq h]
  cases o <;> rfl

theorem rowAt_upserted_single (run : Option Uuid) {o : Option FactRow}
    (h : RowAt t.facts (keyOf f) o) :
    RowAt (upserted t [f] run).facts (keyOf f) (some (rowOf t f run o)) := by
  have hput : (upserted t [f] run).facts = t.facts.put (rowOf t f run o) := by
    rw [upserted, rowsFrom_single h]
    rfl
  rw [hput, rowAt_some]
  refine ⟨⟨Table.mem_put_self _ _, ?_⟩, fun row' hrow' hkey => ?_⟩
  · cases o with
    | none => rfl
    | some old => exact ((h old).2 rfl).2
  · rcases Table.mem_put.1 hrow' with rfl | ⟨hmem, hid⟩
    · rfl
    · have hold := (h row').1 ⟨hmem, hkey⟩
      subst hold
      exact absurd rfl hid

theorem exists_rowAt_upserted (h : ∃ o, RowAt t.facts (keyOf f) o) (k : FactKey) :
    (∃ o, RowAt (upserted t [f] run).facts k o) ↔ ∃ o, RowAt t.facts k o := by
  by_cases hk : keyOf f = k
  · subst hk
    obtain ⟨o, ho⟩ := h
    exact ⟨fun _ => ⟨o, ho⟩, fun _ => ⟨_, rowAt_upserted_single run ho⟩⟩
  · exact exists_congr fun o => rowAt_upserted_other (by simpa using hk)

theorem next_upserted_single {o : Option FactRow} (h : RowAt t.facts (keyOf f) o) :
    (upserted t [f] run).facts.next = t.facts.next + if o = none then 1 else 0 := by
  rw [upserted, rowsFrom_single h]
  cases o with
  | none => exact Nat.max_eq_right (Nat.le_succ _)
  | some old => exact Nat.max_eq_left (t.facts.lt_next old ((h old).2 rfl).1)

/-! ## One call a fact -/

theorem upsertEach_cons {s₁ : DbSession} : upsertEach s (f :: facts) run = .ok s₁ ↔
    ∃ s' counts, upsertFacts s [f] run = .ok (s', counts) ∧ upsertEach s' facts run = .ok s₁ := by
  rw [upsertEach, Loop.foldlM_cons_ok]
  constructor
  · rintro ⟨s', hstep, hrest⟩
    cases hone : upsertFacts s [f] run with
    | error e => rw [hone] at hstep; cases hstep
    | ok r =>
      rw [hone] at hstep
      cases hstep
      exact ⟨r.1, r.2, rfl, hrest⟩
  · rintro ⟨s', counts, hone, hrest⟩
    exact ⟨s', by rw [hone]; rfl, hrest⟩

theorem storable_cons (run : Option Uuid) : Storable t (f :: facts) ↔
    ((∃ o, RowAt t.facts (keyOf f) o) ∧
      (RowAt t.facts (keyOf f) none → referencesExist t f = true)) ∧
    Storable (upserted t [f] run) facts := by
  have hfind : ∀ {g : Fact}, keyOf f ≠ keyOf g →
      (f :: facts).find? (fun h => keyOf h = keyOf g) =
        facts.find? fun h => keyOf h = keyOf g := by
    intro g hne
    rw [List.find?_cons, decide_eq_false hne]
  constructor
  · rintro ⟨hone, hfirst⟩
    rw [List.forall_mem_cons] at hone
    refine ⟨⟨hone.1, hfirst f (by simp)⟩, fun g hg => ?_, fun g hg hnone => ?_⟩
    · exact (exists_rowAt_upserted hone.1 _).2 (hone.2 g hg)
    · by_cases hk : keyOf f = keyOf g
      · obtain ⟨o, ho⟩ := hone.1
        have hsome := rowAt_upserted_single run ho
        rw [hk] at hsome
        exact absurd ((hsome _).2 rfl) (fun h => by cases (hnone _).1 h)
      · refine hfirst g ((hfind hk).trans hg) ?_
        exact (rowAt_upserted_other (by simpa using hk)).1 hnone
  · rintro ⟨⟨hone, href⟩, hrest⟩
    refine ⟨?_, fun g hg hnone => ?_⟩
    · rw [List.forall_mem_cons]
      exact ⟨hone, fun g hg => (exists_rowAt_upserted hone _).1 (hrest.one g hg)⟩
    · by_cases hk : keyOf f = keyOf g
      · rw [List.find?_cons, decide_eq_true hk] at hg
        cases hg
        exact href hnone
      · exact hrest.first g ((hfind hk).symm.trans hg)
          ((rowAt_upserted_other (by simpa using hk)).2 hnone)

/-- The single calls go through exactly when the facts can be stored one by one. -/
theorem upsertEach_ok_iff (run : Option Uuid) :
    (∃ s₁, upsertEach s facts run = .ok s₁) ↔ Storable s.working facts := by
  induction facts generalizing s with
  | nil =>
    have hnil : Storable s.working [] := by
      refine ⟨fun f hf => ?_, fun f hf => ?_⟩
      · cases hf
      · cases hf
    exact ⟨fun _ => hnil, fun _ => ⟨s, rfl⟩⟩
  | cons f facts ih =>
    simp only [upsertEach_cons]
    rw [storable_cons run, ← upsertFacts_single_ok_iff run]
    constructor
    · rintro ⟨s₁, s', counts, hone, hrest⟩
      refine ⟨⟨s', counts, hone⟩, ?_⟩
      rw [← upsertFacts_working hone]
      exact ih.1 ⟨s₁, hrest⟩
    · rintro ⟨⟨s', counts, hone⟩, hrest⟩
      rw [← upsertFacts_working hone] at hrest
      obtain ⟨s₁, hs₁⟩ := ih.2 hrest
      exact ⟨s₁, s', counts, hone, hs₁⟩

theorem upsertEach_working {s₁ : DbSession} (h : upsertEach s facts run = .ok s₁) :
    s₁.working = facts.foldl (fun t f => upserted t [f] run) s.working := by
  induction facts generalizing s with
  | nil => cases h; rfl
  | cons f facts ih =>
    obtain ⟨s', counts, hone, hrest⟩ := upsertEach_cons.1 h
    rw [ih hrest, upsertFacts_working hone]
    rfl

/-- Afterwards every fact has one row. -/
theorem rowAt_upsertEach (hone : ∀ f ∈ facts, ∃ o, RowAt t.facts (keyOf f) o) {k : FactKey}
    (hk : (∃ f ∈ facts, keyOf f = k) ∨ ∃ row, RowAt t.facts k (some row)) :
    ∃ row, RowAt (facts.foldl (fun t f => upserted t [f] run) t).facts k (some row) := by
  induction facts generalizing t with
  | nil =>
    rcases hk with ⟨f, hf, _⟩ | hk
    · cases hf
    · exact hk
  | cons f facts ih =>
    rw [List.forall_mem_cons] at hone
    rw [List.foldl_cons]
    refine ih (fun g hg => (exists_rowAt_upserted hone.1 _).2 (hone.2 g hg)) ?_
    by_cases hf : keyOf f = k
    · subst hf
      obtain ⟨o, ho⟩ := hone.1
      exact .inr ⟨_, rowAt_upserted_single run ho⟩
    · rcases hk with ⟨g, hg, rfl⟩ | ⟨row, hrow⟩
      · rcases List.mem_cons.1 hg with rfl | hg
        · exact absurd rfl hf
        · exact .inl ⟨g, hg, rfl⟩
      · exact .inr ⟨row, (rowAt_upserted_other (by simpa using hf)).2 hrow⟩

/-! ## The batch with different new keys -/

theorem distinctNew_cons_ne {g : Fact} (h : DistinctNew t (f :: facts))
    (hf : RowAt t.facts (keyOf f) none) (hg : g ∈ facts) : keyOf f ≠ keyOf g := by
  intro hk
  have hnew : f ∈ newFacts t (f :: facts) := mem_newFacts.2 ⟨List.mem_cons_self, hf⟩
  have hnewg : g ∈ newFacts t facts := mem_newFacts.2 ⟨hg, hk ▸ hf⟩
  rw [DistinctNew, newFacts, List.filter_cons, rowAt_none_iff.1 hf, if_pos rfl, List.map_cons,
    List.nodup_cons] at h
  exact h.1 (List.mem_map.2 ⟨g, hnewg, hk.symm⟩)

theorem DistinctNew.tail (h : DistinctNew t (f :: facts)) : DistinctNew t facts :=
  h.sublist (((List.sublist_cons_self f facts).filter _).map keyOf)

/-- Two stores give a batch the same rows when every fact finds the same in both, up to what the
update sets. -/
theorem rowsFrom_congr {t' : Store} {n : Nat} (hnext : t'.facts.next = t.facts.next + n) :
    ∀ (facts : List Fact) (m : Nat),
      (∀ g ∈ facts, (matching t g = [] ∧ matching t' g = []) ∨
        ∃ old old', matching t g = [old] ∧ matching t' g = [old'] ∧
          updatedRow old' g run = updatedRow old g run) →
      rowsFrom t run (n + m) facts = rowsFrom t' run m facts := by
  intro facts
  induction facts with
  | nil => intro m _; rfl
  | cons g facts ih =>
    intro m h
    rw [List.forall_mem_cons] at h
    rw [rowsFrom, rowsFrom]
    rcases h.1 with ⟨hnone, hnone'⟩ | ⟨old, old', hold, hold', hrow⟩
    · have hid : t.facts.next + (n + m) = t'.facts.next + m := by rw [hnext, Nat.add_assoc]
      simp only [hnone, hnone', hid]
      rw [Nat.add_assoc, ih (m + 1) h.2]
    · simp only [hold, hold', hrow]
      rw [ih m h.2]

theorem upserted_cons (hone : ∀ g ∈ f :: facts, ∃ o, RowAt t.facts (keyOf g) o)
    (hnew : DistinctNew t (f :: facts)) :
    upserted t (f :: facts) run = upserted (upserted t [f] run) facts run := by
  rw [List.forall_mem_cons] at hone
  obtain ⟨⟨o, ho⟩, hone⟩ := hone
  let n := if o = none then 1 else 0
  have hfound : ∀ g ∈ facts, (matching t g = [] ∧ matching (upserted t [f] run) g = []) ∨
      ∃ old old', matching t g = [old] ∧ matching (upserted t [f] run) g = [old'] ∧
        updatedRow old' g run = updatedRow old g run := by
    intro g hg
    obtain ⟨og, hog⟩ := hone g hg
    by_cases hk : keyOf f = keyOf g
    · have hsome := rowAt_upserted_single run ho
      rw [hk] at hsome ho
      cases o with
      | none => exact absurd hk (distinctNew_cons_ne hnew (hk ▸ ho) hg)
      | some old =>
        exact .inr ⟨old, _, matching_of_rowAt_eq ho, matching_of_rowAt_eq hsome, rfl⟩
    · have hsame := (@rowAt_upserted_other _ [f] run _ (by simpa using hk) _).2 hog
      have hmatch := matching_of_rowAt_eq hog
      have hmatch' := matching_of_rowAt_eq hsame
      cases og with
      | none => exact .inl ⟨hmatch, hmatch'⟩
      | some old => exact .inr ⟨old, old, hmatch, hmatch', rfl⟩
  have hrest : rowsFrom t run n facts = rowsFrom (upserted t [f] run) run 0 facts :=
    rowsFrom_congr (next_upserted_single ho) facts 0 hfound
  have hcons : rowsFrom t run 0 (f :: facts) = rowOf t f run o :: rowsFrom t run n facts := by
    rw [rowsFrom, matching_of_rowAt_eq ho]
    cases o <;> rfl
  have hput : (upserted t [f] run).facts = t.facts.put (rowOf t f run o) := by
    rw [upserted, rowsFrom_single ho]
    rfl
  have htable : t.facts.putAll (rowsFrom t run 0 (f :: facts)) =
      (upserted t [f] run).facts.putAll (rowsFrom (upserted t [f] run) run 0 facts) := by
    rw [hcons, hrest, hput, Table.putAll_cons]
  exact congrArg (fun table => { t with facts := table }) htable

theorem DistinctNew.upserted (hone : ∃ o, RowAt t.facts (keyOf f) o)
    (h : DistinctNew t (f :: facts)) : DistinctNew (Facts.upserted t [f] run) facts := by
  refine h.tail.sublist (List.Sublist.map keyOf ?_)
  refine List.monotone_filter_right facts fun g hg => ?_
  rw [← rowAt_none_iff] at hg ⊢
  obtain ⟨o, ho⟩ := hone
  by_cases hk : keyOf f = keyOf g
  · have hsome := rowAt_upserted_single run ho
    rw [hk] at hsome
    exact absurd ((hg _).1 ((hsome _).2 rfl)) (by simp)
  · exact (rowAt_upserted_other (by simpa using hk)).1 hg

/-- The batch leaves what its facts leave one by one. -/
theorem upserted_eq_foldl (hone : ∀ g ∈ facts, ∃ o, RowAt t.facts (keyOf g) o)
    (hnew : DistinctNew t facts) :
    upserted t facts run = facts.foldl (fun t f => upserted t [f] run) t := by
  induction facts generalizing t with
  | nil => rfl
  | cons f facts ih =>
    have hf := hone f List.mem_cons_self
    rw [upserted_cons hone hnew, List.foldl_cons]
    rw [List.forall_mem_cons] at hone
    exact ih (fun g hg => (exists_rowAt_upserted hf _).2 (hone.2 g hg)) (hnew.upserted hf)

/-! ## Two new facts of one key -/

theorem rowsFrom_append (n : Nat) (facts facts' : List Fact) :
    rowsFrom t run n (facts ++ facts') =
      rowsFrom t run n facts ++ rowsFrom t run (n + (newFacts t facts).length) facts' := by
  induction facts generalizing n with
  | nil => rfl
  | cons f facts ih =>
    rw [List.cons_append, rowsFrom, rowsFrom, newFacts, List.filter_cons]
    cases hmatch : matching t f with
    | nil =>
      simp only [List.isEmpty_nil, if_true, List.length_cons, List.cons_append]
      rw [ih, newFacts, Nat.add_assoc, Nat.add_comm 1]
    | cons old rest =>
      simp only [List.isEmpty_cons, Bool.false_eq_true, if_false, List.cons_append]
      rw [ih, newFacts]

/-- The row of a new fact stays: nothing later in the batch has its id. -/
theorem newRow_mem_upserted (run : Option Uuid) (before after : List Fact)
    (hf : RowAt t.facts (keyOf f) none) :
    newRow (t.facts.next + (newFacts t before).length) f run ∈
      (upserted t (before ++ f :: after) run).facts := by
  have hrows : rowsFrom t run 0 (before ++ f :: after) = rowsFrom t run 0 before ++
      newRow (t.facts.next + (newFacts t before).length) f run ::
        rowsFrom t run ((newFacts t before).length + 1) after := by
    rw [rowsFrom_append, Nat.zero_add, rowsFrom, matching_of_rowAt_eq hf]
    rfl
  show _ ∈ t.facts.putAll (rowsFrom t run 0 (before ++ f :: after))
  rw [hrows, Table.putAll, List.foldl_append, List.foldl_cons]
  refine Table.mem_putAll_of_ne (Table.mem_put_self _ _) fun row hrow => ?_
  obtain ⟨g, _, ⟨old, hold, _, rfl⟩ | ⟨hle, _⟩⟩ := mem_rowsFrom hrow
  · exact Nat.ne_of_gt (Nat.lt_of_lt_of_le (t.facts.lt_next old hold) (Nat.le_add_right _ _))
  · exact Nat.ne_of_lt (Nat.lt_of_lt_of_le (Nat.lt_succ_self _) hle)

/-- When every key of a batch has one row afterwards, no new key came twice. -/
theorem distinctNew_of_rowAt
    (h : ∀ f ∈ facts, ∃ row, RowAt (upserted t facts run).facts (keyOf f) (some row)) :
    DistinctNew t facts := by
  rw [DistinctNew, List.Nodup, List.pairwise_map, newFacts, List.pairwise_filter,
    List.pairwise_iff_forall_sublist]
  intro f g hsub hf hg hk
  rw [← rowAt_none_iff] at hf hg
  obtain ⟨r₁, r₂, rfl, hmem₁, hsub₂⟩ := List.cons_sublist_iff.1 hsub
  have hmem₂ : g ∈ r₂ := List.singleton_sublist.1 hsub₂
  obtain ⟨a, b, rfl⟩ := List.append_of_mem hmem₁
  obtain ⟨c, d, rfl⟩ := List.append_of_mem hmem₂
  obtain ⟨row, hrow⟩ := h f (by simp)
  have hfirst : newRow (t.facts.next + (newFacts t a).length) f run ∈
      (upserted t (a ++ f :: b ++ (c ++ g :: d)) run).facts := by
    have := newRow_mem_upserted run a (b ++ (c ++ g :: d)) hf
    simpa using this
  have hsecond : newRow (t.facts.next + (newFacts t (a ++ f :: b ++ c)).length) g run ∈
      (upserted t (a ++ f :: b ++ (c ++ g :: d)) run).facts := by
    have := newRow_mem_upserted run (a ++ f :: b ++ c) d hg
    simpa using this
  have hsame := Option.some.inj
    (((hrow _).1 ⟨hfirst, rfl⟩).symm.trans ((hrow _).1 ⟨hsecond, hk.symm⟩))
  have hid := congrArg FactRow.id hsame
  have hlength : (newFacts t a).length < (newFacts t (a ++ f :: b ++ c)).length := by
    simp only [newFacts, List.filter_append, List.filter_cons, rowAt_none_iff.1 hf, if_true,
      List.length_append, List.length_cons]
    omega
  exact Nat.ne_of_lt hlength (Nat.add_left_cancel hid)

/-! ## The exact condition -/

theorem referencesExist_of_storable (h : Storable t facts) (hnew : DistinctNew t facts) :
    ∀ f ∈ newFacts t facts, referencesExist t f = true := by
  intro f hf
  obtain ⟨hmem, hnone⟩ := mem_newFacts.1 hf
  refine h.first f ?_ hnone
  cases hfind : facts.find? fun g => keyOf g = keyOf f with
  | none => exact absurd (decide_eq_true rfl) (List.find?_eq_none.1 hfind f hmem)
  | some g =>
    have hkey : keyOf g = keyOf f := by simpa using List.find?_some hfind
    have hg : g ∈ newFacts t facts :=
      mem_newFacts.2 ⟨List.mem_of_find?_eq_some hfind, hkey ▸ hnone⟩
    rw [List.inj_on_of_nodup_map hnew hg hf hkey]

theorem storable_of_references (hone : ∀ f ∈ facts, ∃ o, RowAt t.facts (keyOf f) o)
    (href : ∀ f ∈ newFacts t facts, referencesExist t f = true) : Storable t facts :=
  ⟨hone, fun f hf hnone => href f (mem_newFacts.2 ⟨List.mem_of_find?_eq_some hf, hnone⟩)⟩

theorem DistinctNew.flushable (h : Storable t facts) (hnew : DistinctNew t facts) :
    Facts.flushable t facts = true :=
  flushable_iff.2 ⟨referencesExist_of_storable h hnew,
    hnew.sublist (List.filter_sublist.map keyOf)⟩

theorem one_of_integrityError (h : upsertFacts s facts run = .error .integrityError) :
    (∀ f ∈ facts, ∃ o, RowAt s.working.facts (keyOf f) o) ∧ flushable s.working facts = false := by
  simp only [upsertFacts] at h
  split at h
  · rename_i e herror
    cases h
    exact absurd (addFacts_error herror) (by simp)
  · rename_i b hb
    split at h
    · cases h
    · rename_i hflush
      refine ⟨fun f hf => ?_, by simpa using hflush⟩
      obtain ⟨o, ho⟩ := (addFacts_rows hb).2 f hf
      exact ⟨o, rowAt_of_matching ho⟩

theorem DistinctNew.foldsBatch (h : Storable s.working facts → DistinctNew s.working facts) :
    FoldsBatch s facts run := by
  refine ⟨fun s₁ hs₁ => ?_, fun e he => ?_, fun he => ?_⟩
  · have hstorable := (upsertEach_ok_iff run).1 ⟨s₁, hs₁⟩
    obtain ⟨s', counts, hs'⟩ := (upsertFacts_ok_iff run).2
      ⟨hstorable.one, (h hstorable).flushable hstorable⟩
    have hworking : s'.working = s₁.working := by
      rw [upsertFacts_working hs', upsertEach_working hs₁,
        upserted_eq_foldl hstorable.one (h hstorable)]
    refine ⟨s', counts, hs', hworking, fun f hf => ?_⟩
    rw [hworking, upsertEach_working hs₁]
    exact rowAt_upsertEach hstorable.one (.inl ⟨f, hf, rfl⟩)
  · cases hs' : upsertFacts s facts run with
    | error e' => exact ⟨e', rfl⟩
    | ok r =>
      obtain ⟨hone, hflush⟩ := (upsertFacts_ok_iff run).1 ⟨r.1, r.2, hs'⟩
      obtain ⟨s₁, hs₁⟩ := (upsertEach_ok_iff run).2
        (storable_of_references hone (flushable_iff.1 hflush).1)
      rw [he] at hs₁
      cases hs₁
  · obtain ⟨hone, hflush⟩ := one_of_integrityError he
    by_contra hno
    push Not at hno
    have href : ∀ f ∈ newFacts s.working facts, referencesExist s.working f = true := by
      intro f hf
      obtain ⟨hmem, hnone⟩ := mem_newFacts.1 hf
      simpa using hno f hmem hnone
    have hstorable := storable_of_references hone href
    rw [(h hstorable).flushable hstorable] at hflush
    cases hflush

/-- A batch does what its facts do one by one exactly when the facts cannot be stored one by one
either, or no new key comes twice. -/
theorem foldsBatch_iff (s : DbSession) (facts : List Fact) (run : Option Uuid) :
    FoldsBatch s facts run ↔ (Storable s.working facts → DistinctNew s.working facts) := by
  constructor
  · intro h hstorable
    obtain ⟨s₁, hs₁⟩ := (upsertEach_ok_iff run).2 hstorable
    obtain ⟨s', counts, hs', _, hrows⟩ := h.stored s₁ hs₁
    rw [upsertFacts_working hs'] at hrows
    exact distinctNew_of_rowAt hrows
  · exact DistinctNew.foldsBatch

end

/-! ## A snapshot that two pages list -/

/-- One resource of one account. -/
def oneResource : DbSession :=
  .begin { Store.empty with
    accounts := Table.empty.put ⟨0, "123456789012", none⟩
    resources := Table.empty.put
      ⟨0, 0, "eu-west-1", Collectors.Ec2.snapshotResourceType, "snap-1", 0, 0, none⟩ }

def overlappingPages : List Fact :=
  Collectors.Ec2.correlationFacts (some [])
    [(0, [("SnapshotId", .str "snap-1")]), (0, [("SnapshotId", .str "snap-1")])] [] 0 0

/-- One call a fact stores the snapshot's fact, the batch fails on its unique key. -/
theorem batch_collides : ¬ FoldsBatch oneResource overlappingPages none := by
  intro h
  have hbatch : upsertFacts oneResource overlappingPages none = .error .integrityError := by rfl
  obtain ⟨f, hf, _, href⟩ := h.unique hbatch
  have hall : ∀ f ∈ overlappingPages, referencesExist oneResource.working f = true := by decide
  rw [hall f hf] at href
  cases href

end Facts

end Constat
