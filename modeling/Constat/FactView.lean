import Constat.Inventory
import Constat.Lib.Latest
import Constat.Lib.Loop

/-!
# FactView

What the fact rows of a store show, key by key: the value, its state, when it was observed and by
which run. A batch of facts with different keys shows itself afterwards, and leaves the rows of
other keys alone.

* `RowAt`, `Shows` — the row of a key, and what it shows.
* `rowsFrom`       — the rows a batch writes.
* `upsertFacts_shows` — a batch applies its entries to what is shown.
-/

namespace Constat

namespace Facts

structure Shown where
  value : Json
  state : ValueState
  observedAt : Micros
  lastSourceRunId : Option Uuid
deriving DecidableEq

def shown (row : FactRow) : Shown :=
  ⟨row.value, row.valueState, row.observedAt, row.lastSourceRunId⟩

def entryOf (row : FactRow) : FactKey × Shown := (keyOfRow row, shown row)

/-- A batch as the entries of a log. -/
def entries (facts : List Fact) (run : Option Uuid) : List (FactKey × Shown) :=
  facts.map fun f => (keyOf f, ⟨f.value, f.valueState, f.observedAt, run⟩)

theorem fst_entries (facts : List Fact) (run : Option Uuid) :
    (entries facts run).map Prod.fst = facts.map keyOf := by
  rw [entries, List.map_map]
  rfl

/-- The rows of the key are the one of `o`, if it has one. -/
def RowAt (t : Table FactRow.id) (k : FactKey) (o : Option FactRow) : Prop :=
  ∀ row, (row ∈ t ∧ keyOfRow row = k) ↔ o = some row

def Shows (t : Table FactRow.id) (k : FactKey) (v : Option Shown) : Prop :=
  ∃ o, RowAt t k o ∧ o.map shown = v

theorem rowAt_none {t : Table FactRow.id} {k : FactKey} :
    RowAt t k none ↔ ∀ row ∈ t, keyOfRow row ≠ k := by
  constructor
  · intro h row hrow hkey
    have hnone := (h row).1 ⟨hrow, hkey⟩
    cases hnone
  · intro h row
    exact ⟨fun hrow => absurd hrow.2 (h row hrow.1), fun hnone => by cases hnone⟩

theorem rowAt_some {t : Table FactRow.id} {k : FactKey} {row : FactRow} :
    RowAt t k (some row) ↔
      (row ∈ t ∧ keyOfRow row = k) ∧ ∀ row' ∈ t, keyOfRow row' = k → row' = row := by
  constructor
  · exact fun h => ⟨(h row).2 rfl, fun row' hrow' hkey =>
      (Option.some.inj ((h row').1 ⟨hrow', hkey⟩)).symm⟩
  · rintro ⟨hrow, hone⟩ row'
    constructor
    · exact fun h => congrArg some (hone row' h.1 h.2).symm
    · rintro ⟨⟩
      exact hrow

theorem Shows.unique {t : Table FactRow.id} {k : FactKey} {v v' : Option Shown}
    (h : Shows t k v) (h' : Shows t k v') : v = v' := by
  obtain ⟨o, ho, rfl⟩ := h
  obtain ⟨o', ho', rfl⟩ := h'
  have hsame : o = o' := by
    cases o with
    | none =>
      cases o' with
      | none => rfl
      | some row' => exact absurd ((ho row').1 ((ho' row').2 rfl)) (by simp)
    | some row => exact ((ho' row).1 ((ho row).2 rfl)).symm
  rw [hsame]

/-! ## Lookups -/

theorem rowAt_of_matching {t : Store} {f : Fact} {o : Option FactRow}
    (h : scalarOneOrNone (matching t f) = .ok o) : RowAt t.facts (keyOf f) o := by
  have hmem : ∀ row, row ∈ matching t f ↔ row ∈ t.facts ∧ keyOfRow row = keyOf f := by
    intro row
    rw [matching, List.mem_filter, decide_eq_true_eq]
    rfl
  intro row
  rw [← hmem]
  cases o with
  | none =>
    rw [eq_nil_of_scalarOneOrNone h]
    simp
  | some row' =>
    rw [eq_singleton_of_scalarOneOrNone h, List.mem_singleton, Option.some.injEq]
    exact eq_comm

theorem matching_of_rowAt {t : Store} {f : Fact} {o : Option FactRow}
    (h : RowAt t.facts (keyOf f) o) : scalarOneOrNone (matching t f) = .ok o := by
  have hmem : ∀ row, row ∈ matching t f ↔ o = some row := by
    intro row
    rw [← h row, matching, List.mem_filter, decide_eq_true_eq]
    rfl
  have hnodup : (matching t f).Nodup := List.Nodup.of_map FactRow.id (t.facts.nodup_filter _)
  cases o with
  | none =>
    have hnil : matching t f = [] := List.eq_nil_iff_forall_not_mem.2 fun row hrow => by
      have hnone := (hmem row).1 hrow
      cases hnone
    rw [hnil]
    rfl
  | some row =>
    have hone : matching t f = [row] := by
      refine List.perm_singleton.1 ((List.perm_ext_iff_of_nodup hnodup (List.nodup_singleton row)).2
        fun row' => ?_)
      rw [hmem, Option.some.injEq, List.mem_singleton]
      exact eq_comm
    rw [hone]
    rfl

/-! ## Flushes -/

theorem addFact_error {s : Store} {run : Option Uuid} {b : Batch} {f : Fact} {e : DbError}
    (h : addFact s run b f = .error e) : e = .multipleResultsFound := by
  simp only [addFact] at h
  split at h
  · rename_i e' hmatching
    cases h
    revert hmatching
    rcases matching s f with _ | ⟨x, _ | ⟨y, rest⟩⟩ <;> intro hmatching <;> cases hmatching
    rfl
  · cases h
  · cases h

theorem addFacts_error {s : Store} {run : Option Uuid} {facts : List Fact} {b : Batch}
    {e : DbError} (h : facts.foldlM (addFact s run) b = .error e) :
    e = .multipleResultsFound := by
  induction facts generalizing b with
  | nil => cases h
  | cons f facts ih =>
    rw [List.foldlM_cons] at h
    cases hadd : addFact s run b f with
    | error e' =>
      rw [hadd] at h
      cases h
      exact addFact_error hadd
    | ok b' =>
      rw [hadd] at h
      exact ih h

/-- The flush of facts with different keys, of resources and accounts that exist, does not fail. -/
theorem upsertFacts_flushes {s : DbSession} {facts : List Fact} (run : Option Uuid)
    (hresources : ∀ f ∈ facts, ∀ id, f.resourceId = some id →
      (s.working.resources.get? id).isSome = true)
    (haccounts : ∀ f ∈ facts, ∀ id, f.accountId = some id →
      (s.working.accounts.get? id).isSome = true)
    (hkeys : (facts.map keyOf).Nodup) :
    upsertFacts s facts run ≠ .error .integrityError := by
  have hflush : flushable s.working facts = true := by
    rw [flushable, Bool.and_eq_true, decide_eq_true_eq, List.all_eq_true]
    constructor
    · intro f hf
      have hmem := List.mem_of_mem_filter hf
      rw [Bool.and_eq_true, Option.all_eq_true, Option.all_eq_true]
      exact ⟨hresources f hmem, haccounts f hmem⟩
    · exact hkeys.sublist ((List.filter_sublist.trans List.filter_sublist).map _)
  simp only [upsertFacts, hflush, if_true]
  split
  · rename_i e herror
    rw [addFacts_error herror]
    simp
  · simp

theorem addFacts_ok {t : Store} {run : Option Uuid} {facts : List Fact} {b : Batch}
    (hone : ∀ f ∈ facts, ∃ o, RowAt t.facts (keyOf f) o) :
    ∃ b', facts.foldlM (addFact t run) b = .ok b' := by
  induction facts generalizing b with
  | nil => exact ⟨b, rfl⟩
  | cons f facts ih =>
    rw [List.forall_mem_cons] at hone
    obtain ⟨o, ho⟩ := hone.1
    have hadd : ∃ b₁, addFact t run b f = .ok b₁ := by
      rw [addFact, matching_of_rowAt ho]
      cases o with
      | none => exact ⟨_, rfl⟩
      | some row => exact ⟨_, rfl⟩
    obtain ⟨b₁, hadd⟩ := hadd
    obtain ⟨b', hrest⟩ := ih (b := b₁) hone.2
    exact ⟨b', Loop.foldlM_cons_ok.2 ⟨b₁, hadd, hrest⟩⟩

/-- Facts with different keys, each with one row at most, are upserted when their resources and
accounts exist. -/
theorem upsertFacts_ok {s : DbSession} {facts : List Fact} (run : Option Uuid)
    (hresources : ∀ f ∈ facts, ∀ id, f.resourceId = some id →
      (s.working.resources.get? id).isSome = true)
    (haccounts : ∀ f ∈ facts, ∀ id, f.accountId = some id →
      (s.working.accounts.get? id).isSome = true)
    (hkeys : (facts.map keyOf).Nodup)
    (hone : ∀ f ∈ facts, ∃ o, RowAt s.working.facts (keyOf f) o) :
    ∃ s' counts, upsertFacts s facts run = .ok (s', counts) := by
  have hflushes := upsertFacts_flushes run hresources haccounts hkeys
  have hrows : ∃ b, facts.foldlM (addFact s.working run) ⟨[], 0, 0⟩ = .ok b := addFacts_ok hone
  obtain ⟨b, hb⟩ := hrows
  simp only [upsertFacts, hb] at hflushes ⊢
  split
  · exact ⟨_, _, rfl⟩
  · rename_i hflush
    exact absurd (if_neg hflush) hflushes

/-! ## The rows of a batch -/

/-- The rows that a batch of facts writes, after `n` rows that it has inserted. -/
def rowsFrom (t : Store) (run : Option Uuid) : Nat → List Fact → List FactRow
  | _, [] => []
  | n, f :: facts =>
    match matching t f with
    | [] => newRow (t.facts.next + n) f run :: rowsFrom t run (n + 1) facts
    | old :: _ => updatedRow old f run :: rowsFrom t run n facts

theorem addFacts_rows {t : Store} {run : Option Uuid} {facts : List Fact} {b b' : Batch}
    (h : facts.foldlM (addFact t run) b = .ok b') :
    b'.rows = b.rows ++ rowsFrom t run b.inserted facts ∧
      ∀ f ∈ facts, ∃ o, scalarOneOrNone (matching t f) = .ok o := by
  induction facts generalizing b with
  | nil =>
    cases h
    exact ⟨(List.append_nil _).symm, List.forall_mem_nil _⟩
  | cons f facts ih =>
    obtain ⟨b₁, hadd, hrest⟩ := Loop.foldlM_cons_ok.1 h
    obtain ⟨hrows, hall⟩ := ih hrest
    simp only [addFact] at hadd
    rw [rowsFrom]
    split at hadd
    · cases hadd
    · rename_i old hold
      cases hadd
      rw [hrows, eq_singleton_of_scalarOneOrNone hold]
      exact ⟨List.append_assoc _ _ _, List.forall_mem_cons.2 ⟨⟨_, hold⟩, hall⟩⟩
    · rename_i hnone
      cases hadd
      rw [hrows, eq_nil_of_scalarOneOrNone hnone]
      exact ⟨List.append_assoc _ _ _, List.forall_mem_cons.2 ⟨⟨_, hnone⟩, hall⟩⟩

/-- A row of a batch is the one of a fact: an old row of its key, or a new one. -/
theorem mem_rowsFrom {t : Store} {run : Option Uuid} {n : Nat} {facts : List Fact} {row : FactRow}
    (h : row ∈ rowsFrom t run n facts) : ∃ f ∈ facts,
      (∃ old ∈ t.facts, keyOfRow old = keyOf f ∧ row = updatedRow old f run) ∨
        (t.facts.next + n ≤ row.id ∧ row = newRow row.id f run ∧ matching t f = []) := by
  induction facts generalizing n with
  | nil => cases h
  | cons f facts ih =>
    rw [rowsFrom] at h
    split at h
    · rename_i hnone
      rcases List.mem_cons.1 h with rfl | h
      · exact ⟨f, List.mem_cons_self, .inr ⟨Nat.le_refl _, rfl, hnone⟩⟩
      · obtain ⟨f', hf', hrow | ⟨hid, hrow⟩⟩ := ih h
        · exact ⟨f', List.mem_cons_of_mem f hf', .inl hrow⟩
        · exact ⟨f', List.mem_cons_of_mem f hf', .inr ⟨by omega, hrow⟩⟩
    · rename_i old rest hold
      rcases List.mem_cons.1 h with rfl | h
      · have hmem : old ∈ matching t f := hold ▸ List.mem_cons_self
        obtain ⟨hrow, hkey⟩ := List.mem_filter.1 hmem
        exact ⟨f, List.mem_cons_self, .inl ⟨old, hrow, of_decide_eq_true hkey, rfl⟩⟩
      · obtain ⟨f', hf', hrow⟩ := ih h
        exact ⟨f', List.mem_cons_of_mem f hf', hrow⟩

/-- The rows of a batch are its entries. -/
theorem map_rowsFrom (t : Store) (run : Option Uuid) (n : Nat) (facts : List Fact) :
    (rowsFrom t run n facts).map entryOf = entries facts run := by
  induction facts generalizing n with
  | nil => rfl
  | cons f facts ih =>
    rw [rowsFrom]
    split
    · rw [List.map_cons, ih]
      rfl
    · rename_i old rest hold
      have hmem : old ∈ matching t f := hold ▸ List.mem_cons_self
      have hkey : keyOfRow old = keyOf f := of_decide_eq_true (List.mem_filter.1 hmem).2
      have hentry : entryOf (updatedRow old f run) =
          (keyOf f, ⟨f.value, f.valueState, f.observedAt, run⟩) := by rw [← hkey]; rfl
      rw [List.map_cons, ih, hentry]
      rfl

theorem map_keyOfRow_rowsFrom (t : Store) (run : Option Uuid) (n : Nat) (facts : List Fact) :
    (rowsFrom t run n facts).map keyOfRow = facts.map keyOf := by
  have hfst := congrArg (List.map Prod.fst) (map_rowsFrom t run n facts)
  rw [entries, List.map_map, List.map_map] at hfst
  exact hfst

/-- The rows of a batch with different keys have different ids. -/
theorem nodup_rowsFrom {t : Store} {run : Option Uuid} {n : Nat} {facts : List Fact}
    (hkeys : (facts.map keyOf).Nodup) : ((rowsFrom t run n facts).map FactRow.id).Nodup := by
  induction facts generalizing n with
  | nil => exact List.nodup_nil
  | cons f facts ih =>
    rw [List.map_cons, List.nodup_cons] at hkeys
    rw [rowsFrom]
    split
    · rw [List.map_cons, List.nodup_cons]
      refine ⟨fun hmem => ?_, ih hkeys.2⟩
      obtain ⟨row, hrow, hid⟩ := List.mem_map.1 hmem
      obtain ⟨f', _, ⟨old, hold, _, rfl⟩ | ⟨hle, _⟩⟩ := mem_rowsFrom hrow
      · have hlt : old.id < t.facts.next + n :=
          Nat.lt_of_lt_of_le (t.facts.lt_next old hold) (Nat.le_add_right _ _)
        exact Nat.ne_of_lt hlt hid
      · exact Nat.ne_of_gt hle hid
    · rename_i old rest hold
      rw [List.map_cons, List.nodup_cons]
      refine ⟨fun hmem => ?_, ih hkeys.2⟩
      obtain ⟨row, hrow, hid⟩ := List.mem_map.1 hmem
      have hmem : old ∈ matching t f := hold ▸ List.mem_cons_self
      obtain ⟨hold, hkey⟩ := List.mem_filter.1 hmem
      obtain ⟨f', hf', ⟨old', hold', hkey', rfl⟩ | ⟨hle, _⟩⟩ := mem_rowsFrom hrow
      · have hsame : old' = old := Table.eq_of_key hold' hold hid
        refine hkeys.1 (List.mem_map.2 ⟨f', hf', ?_⟩)
        rw [← hkey', hsame]
        exact of_decide_eq_true hkey
      · have hlt : old.id < row.id := Nat.lt_of_lt_of_le (t.facts.lt_next old hold)
          (Nat.le_trans (Nat.le_add_right _ _) hle)
        exact Nat.ne_of_gt hlt hid

/-! ## What a batch shows -/

theorem foldl_applyWrite_fact (t : Store) (rows : List FactRow) :
    (rows.map Write.fact).foldl applyWrite t = { t with facts := t.facts.putAll rows } := by
  induction rows generalizing t with
  | nil => rfl
  | cons row rows ih => rw [List.map_cons, List.foldl_cons, ih]; rfl

/-- A batch that is flushed has found at most one row for each fact, and has put its rows. -/
theorem upsertFacts_cases {s s' : DbSession} {facts : List Fact} {run : Option Uuid}
    {counts : Nat × Nat} (h : upsertFacts s facts run = .ok (s', counts)) :
    s' = s.writes ((rowsFrom s.working run 0 facts).map .fact) ∧
      ∀ f ∈ facts, ∃ o, RowAt s.working.facts (keyOf f) o := by
  simp only [upsertFacts] at h
  split at h
  · cases h
  · rename_i b hb
    split at h
    · cases h
      obtain ⟨hrows, hall⟩ := addFacts_rows hb
      refine ⟨by rw [hrows]; rfl, fun f hf => ?_⟩
      obtain ⟨o, ho⟩ := hall f hf
      exact ⟨o, rowAt_of_matching ho⟩
    · cases h

/-- The working store once a batch is flushed. -/
def upserted (t : Store) (facts : List Fact) (run : Option Uuid) : Store :=
  { t with facts := t.facts.putAll (rowsFrom t run 0 facts) }

theorem upsertFacts_working {s s' : DbSession} {facts : List Fact} {run : Option Uuid}
    {counts : Nat × Nat} (h : upsertFacts s facts run = .ok (s', counts)) :
    s'.working = upserted s.working facts run := by
  obtain ⟨rfl, _⟩ := upsertFacts_cases h
  rw [Session.writes_working, foldl_applyWrite_fact]
  rfl

section

variable {t : Store} {facts : List Fact} {run : Option Uuid}

/-- A row of another key is as it was. -/
theorem mem_upserted_other {row : FactRow} (hother : ∀ f ∈ facts, keyOf f ≠ keyOfRow row) :
    row ∈ (upserted t facts run).facts ↔ row ∈ t.facts := by
  have hnot : row ∉ rowsFrom t run 0 facts := by
    intro hrow
    have hmem := List.mem_map_of_mem (f := keyOfRow) hrow
    rw [map_keyOfRow_rowsFrom] at hmem
    obtain ⟨f, hf, hkey⟩ := List.mem_map.1 hmem
    exact hother f hf hkey
  rw [upserted, Table.mem_putAll_of_not_mem hnot]
  refine and_iff_left_of_imp fun hrow x hx hid => ?_
  obtain ⟨f, hf, ⟨old, hold, hkey, rfl⟩ | ⟨hle, _⟩⟩ := mem_rowsFrom hx
  · have hsame : row = old := Table.eq_of_key hrow hold hid
    exact hother f hf (hsame ▸ hkey.symm)
  · exact Nat.ne_of_lt (Nat.lt_of_lt_of_le (t.facts.lt_next row hrow) hle) hid

/-- A key that no fact of the batch has keeps its row. -/
theorem rowAt_upserted_other {k : FactKey} (hk : ∀ f ∈ facts, keyOf f ≠ k) {o : Option FactRow} :
    RowAt (upserted t facts run).facts k o ↔ RowAt t.facts k o := by
  refine forall_congr' fun row => iff_congr (and_congr_left fun hkey => ?_) Iff.rfl
  refine mem_upserted_other fun f hf => ?_
  rw [hkey]
  exact hk f hf

/-- A key that no fact of the batch has shows what it did. -/
theorem shows_upserted_other {k : FactKey} (hk : ∀ f ∈ facts, keyOf f ≠ k) {v : Option Shown}
    (hv : Shows t.facts k v) : Shows (upserted t facts run).facts k v := by
  obtain ⟨o, ho, rfl⟩ := hv
  exact ⟨o, (rowAt_upserted_other hk).2 ho, rfl⟩

/-- The rows of a key are one at most: the one that the batch has written, or the one from before. -/
theorem shows_upserted (hkeys : (facts.map keyOf).Nodup)
    (hone : ∀ f ∈ facts, ∃ o, RowAt t.facts (keyOf f) o) {k : FactKey} {v : Option Shown}
    (hv : Shows t.facts k v) :
    Shows (upserted t facts run).facts k ((Latest.latest (entries facts run) k).or v) := by
  by_cases hk : ∃ f ∈ facts, keyOf f = k
  · obtain ⟨f, hf, rfl⟩ := hk
    have hentry : (keyOf f, ⟨f.value, f.valueState, f.observedAt, run⟩) ∈ entries facts run :=
      List.mem_map.2 ⟨f, hf, rfl⟩
    have hlatest := Latest.latest_eq_some (fst_entries facts run ▸ hkeys) hentry
    have hrows := map_rowsFrom t run 0 facts
    rw [← hrows] at hentry
    obtain ⟨row, hrow, he⟩ := List.mem_map.1 hentry
    have hkey : keyOfRow row = keyOf f := congrArg Prod.fst he
    rw [hlatest]
    refine ⟨some row, rowAt_some.2 ⟨⟨?_, hkey⟩, fun row' hrow' hkey' => ?_⟩, congrArg (fun e => some (Prod.snd e)) he⟩
    · exact (Table.mem_putAll (nodup_rowsFrom hkeys)).2 (.inl hrow)
    · rcases (Table.mem_putAll (nodup_rowsFrom hkeys)).1 hrow' with hrow' | ⟨hrow', hkept⟩
      · have hnodup : ((rowsFrom t run 0 facts).map keyOfRow).Nodup :=
          map_keyOfRow_rowsFrom t run 0 facts ▸ hkeys
        exact List.inj_on_of_nodup_map hnodup hrow' hrow (hkey'.trans hkey.symm)
      · -- an old row of the key has been overwritten
        refine absurd ?_ (hkept row hrow)
        obtain ⟨o, ho⟩ := hone f hf
        have hold := (ho row').1 ⟨hrow', hkey'⟩
        obtain ⟨f', _, ⟨old, hmem, holdkey, rfl⟩ | ⟨_, hnew, hnone⟩⟩ := mem_rowsFrom hrow
        · have hsame : row' = old := Option.some.inj (hold.symm.trans ((ho old).1 ⟨hmem, hkey⟩))
          show row'.id = old.id
          rw [hsame]
        · have hnewkey : keyOf f' = keyOf f := by
            rw [← hkey, hnew]
            rfl
          have hmatch : row' ∈ matching t f' :=
            List.mem_filter.2 ⟨hrow', decide_eq_true (hkey'.trans hnewkey.symm)⟩
          rw [hnone] at hmatch
          cases hmatch
  · push Not at hk
    have hnone : Latest.latest (entries facts run) k = none := by
      refine Latest.latest_eq_none fun e he => ?_
      obtain ⟨f, hf, rfl⟩ := List.mem_map.1 he
      exact hk f hf
    rw [hnone]
    exact shows_upserted_other hk hv

/-! ### Batches that only update -/

/-- `row` is the row `old`, with what it shows set anew. -/
def Revised (old row : FactRow) : Prop :=
  row.id = old.id ∧ keyOfRow row = keyOfRow old ∧ row.accountId = old.accountId

theorem Revised.trans {row row' row'' : FactRow} (h : Revised row row') (h' : Revised row' row'') :
    Revised row row'' :=
  ⟨h'.1.trans h.1, h'.2.1.trans h.2.1, h'.2.2.trans h.2.2⟩

theorem Revised.eq_of_shown {old row : FactRow} (h : Revised old row)
    (hshown : shown row = shown old) : row = old := by
  obtain ⟨hid, hkey, haccount⟩ := h
  cases old
  cases row
  simp only [keyOfRow, FactKey.mk.injEq, shown, Shown.mk.injEq] at hid hkey haccount hshown
  simp [hid, hkey, haccount, hshown]

/-- When every fact of a batch has a row, the rows are rewritten in place. -/
theorem upserted_revised (hall : ∀ f ∈ facts, ∃ row, RowAt t.facts (keyOf f) (some row)) :
    ((upserted t facts run).facts.rows.map FactRow.id = t.facts.rows.map FactRow.id ∧
      (upserted t facts run).facts.next = t.facts.next) ∧
    ∀ row ∈ (upserted t facts run).facts, ∃ old ∈ t.facts, Revised old row := by
  have hrows : ∀ row ∈ rowsFrom t run 0 facts, ∃ old ∈ t.facts, Revised old row := by
    intro row hrow
    obtain ⟨f, hf, ⟨old, hold, _, rfl⟩ | ⟨_, _, hnone⟩⟩ := mem_rowsFrom hrow
    · exact ⟨old, hold, rfl, rfl, rfl⟩
    · obtain ⟨row', hrow'⟩ := hall f hf
      have hmatching := matching_of_rowAt hrow'
      rw [hnone] at hmatching
      cases hmatching
  constructor
  · refine Table.putAll_keys fun row hrow => ?_
    obtain ⟨old, hold, hid, _⟩ := hrows row hrow
    exact ⟨old, hold, hid.symm⟩
  · intro row hrow
    by_cases hmem : row ∈ rowsFrom t run 0 facts
    · exact hrows row hmem
    · exact ⟨row, ((Table.mem_putAll_of_not_mem hmem).1 hrow).1, rfl, rfl, rfl⟩

end

end Facts

end Constat
