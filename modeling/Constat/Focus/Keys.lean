import Constat.Lib.Trace
import Constat.Focus.Reingest

/-!
# Focus.Keys

The key under which a charge is stored, `COALESCE(service_canonical, service)` with the period, over
a sequence of ingests with any service catalogs. The update of a row takes the canonical name of the
aggregate and keeps the native one, so a row that was found by its canonical name and is given none
falls back to its own native name, which may be the key of another row.

`keySound_iff`: along a run of ingests the keys stay unique, no row changes its key and no lookup
finds two rows exactly when no aggregate without a canonical name meets a row of another native
name.
-/

namespace Constat

namespace Focus

open Trace

/-- The charges of an account have different keys. -/
def UniqueIn (s : Store) (account : Uuid) : Prop :=
  ∀ x ∈ chargesOf s account, ∀ y ∈ chargesOf s account, chargeKey x = chargeKey y → x = y

/-- Every row is still there under its key. -/
def SameKeys (s s' : Store) : Prop :=
  ∀ r ∈ s.focusCharges, ∃ r' ∈ s'.focusCharges, r'.id = r.id ∧ r'.accountId = r.accountId ∧
    chargeKey r' = chargeKey r

theorem SameKeys.refl (s : Store) : SameKeys s s := fun r hr => ⟨r, hr, rfl, rfl, rfl⟩

theorem SameKeys.trans {s t u : Store} (h : SameKeys s t) (h' : SameKeys t u) : SameKeys s u := by
  intro r hr
  obtain ⟨r₁, hr₁, hid₁, hacc₁, hkey₁⟩ := h r hr
  obtain ⟨r₂, hr₂, hid₂, hacc₂, hkey₂⟩ := h' r₁ hr₁
  exact ⟨r₂, hr₂, hid₂.trans hid₁, hacc₂.trans hacc₁, hkey₂.trans hkey₁⟩

/-! ## One aggregate -/

section

variable {s s' : Store} {account : Uuid} {agg : AggregatedFocusCharge} {q : FocusChargeRow}

/-- The row that is put replaces no row of another account. -/
theorem StoresIn.id_ne (h : StoresIn s account agg q) {x : FocusChargeRow}
    (hx : x ∈ s.focusCharges) (hacc : x.accountId ≠ account) : x.id ≠ q.id := by
  intro hid
  cases h with
  | inserted hnone => exact Table.fresh_next hx hid
  | @updated old hone =>
    obtain ⟨hold, holdAcc, _⟩ := mem_matching.1 (hone ▸ List.mem_singleton_self old)
    rw [Table.eq_of_key hx hold hid] at hacc
    exact hacc holdAcc

theorem uniqueIn_put (hu : ∀ a, UniqueIn s a) (h : StoresIn s account agg q)
    (hkeep : ∀ r ∈ chargesOf s account, RowKeepsKey agg r)
    (hput : s'.focusCharges = s.focusCharges.put q) : ∀ a, UniqueIn s' a := by
  have hq := h.holds hkeep
  have hold : ∀ {a x}, x ∈ chargesOf s' a → x = q ∨ x ∈ chargesOf s a ∧ x.id ≠ q.id := by
    intro a x hx
    obtain ⟨hmem, hacc⟩ := mem_chargesOf.1 hx
    rw [hput, Table.mem_put] at hmem
    rcases hmem with rfl | ⟨hmem, hid⟩
    · exact .inl rfl
    · exact .inr ⟨mem_chargesOf.2 ⟨hmem, hacc⟩, hid⟩
  -- a row of the account with the key of the aggregate has been replaced
  have hfree : ∀ {a x}, q ∈ chargesOf s' a → x ∈ chargesOf s a → x.id ≠ q.id →
      chargeKey x ≠ chargeKey q := by
    intro a x hqa hx hid hkey
    have ha : a = account := (mem_chargesOf.1 hqa).2.symm.trans hq.accountId
    subst ha
    exact hid ((h.id_iff hx).2 (hkey.trans hq.key))
  intro a x hx y hy hkey
  rcases hold hx with rfl | ⟨hx', hxid⟩
  · rcases hold hy with rfl | ⟨hy', hyid⟩
    · rfl
    · exact absurd hkey.symm (hfree hx hy' hyid)
  · rcases hold hy with rfl | ⟨hy', _⟩
    · exact absurd hkey (hfree hy hx' hxid)
    · exact hu a x hx' y hy' hkey

theorem sameKeys_put (h : StoresIn s account agg q)
    (hkeep : ∀ r ∈ chargesOf s account, RowKeepsKey agg r)
    (hput : s'.focusCharges = s.focusCharges.put q) : SameKeys s s' := by
  have hq := h.holds hkeep
  intro r hr
  by_cases hid : r.id = q.id
  · refine ⟨q, hput ▸ Table.mem_put_self _ _, hid.symm, ?_⟩
    by_cases hacc : r.accountId = account
    · exact ⟨hq.accountId.trans hacc.symm,
        hq.key.trans ((h.id_iff (mem_chargesOf.2 ⟨hr, hacc⟩)).1 hid).symm⟩
    · exact absurd hid (h.id_ne hr hacc)
  · exact ⟨r, hput ▸ Table.mem_put.2 (.inr ⟨hr, hid⟩), rfl, rfl, rfl⟩

/-- With unique keys an aggregate is not refused. -/
theorem upsertOne_isOk {s : DbSession} (agg : AggregatedFocusCharge) (hu : ∀ a, UniqueIn s.working a)
    (hacc : (s.working.accounts.get? account).isSome = true) :
    ∃ s' isNew, upsertOne s account agg = .ok (s', isNew) := by
  simp only [upsertOne]
  split
  · exact ⟨_, _, if_pos hacc⟩
  · exact ⟨_, _, rfl⟩
  · rename_i hnil hone
    exfalso
    have hall : ∀ x ∈ matching s.working account agg.key, ∀ y ∈ matching s.working account agg.key,
        x = y := by
      intro x hx y hy
      obtain ⟨hxm, hxa, hxk⟩ := mem_matching.1 hx
      obtain ⟨hym, hya, hyk⟩ := mem_matching.1 hy
      exact hu account x (mem_chargesOf.2 ⟨hxm, hxa⟩) y (mem_chargesOf.2 ⟨hym, hya⟩)
        (hxk.trans hyk.symm)
    have hnd : (matching s.working account agg.key).Nodup :=
      (List.Nodup.of_map _ s.working.focusCharges.nodup).filter _
    rcases hmatching : matching s.working account agg.key with _ | ⟨x, _ | ⟨y, rest⟩⟩
    · exact hnil hmatching
    · exact hone x hmatching
    · rw [hmatching] at hall hnd
      have hxy := hall x (by simp) y (by simp)
      rw [hxy] at hnd
      simp at hnd

/-- Where a row of the account is after one aggregate. -/
theorem row_after_one (h : StoresIn s account agg q)
    (hput : s'.focusCharges = s.focusCharges.put q) {r : FocusChargeRow}
    (hr : r ∈ chargesOf s account) :
    (chargeKey r ≠ agg.key → r ∈ chargesOf s' account) ∧
    (chargeKey r = agg.key → updatedCharge r agg ∈ chargesOf s' account) := by
  obtain ⟨hmem, hacc⟩ := mem_chargesOf.1 hr
  constructor
  · intro hkey
    have hid : r.id ≠ q.id := fun hid => hkey ((h.id_iff hr).1 hid)
    exact mem_chargesOf.2 ⟨hput ▸ Table.mem_put.2 (.inr ⟨hmem, hid⟩), hacc⟩
  · intro hkey
    cases h with
    | inserted hnone =>
      have hm : r ∈ matching s account agg.key := mem_matching.2 ⟨hmem, hacc, hkey⟩
      rw [hnone] at hm
      cases hm
    | @updated old hone =>
      have hm : r ∈ matching s account agg.key := mem_matching.2 ⟨hmem, hacc, hkey⟩
      rw [hone, List.mem_singleton] at hm
      subst hm
      exact mem_chargesOf.2 ⟨hput ▸ Table.mem_put_self _ _, hacc⟩

end

/-! ## A list of aggregates -/

section

variable {account : Uuid} {aggs : List AggregatedFocusCharge}

theorem upsertAggregated_keyed : ∀ {s : DbSession}, (∀ a, UniqueIn s.working a) →
    (s.working.accounts.get? account).isSome = true → (aggs.map (·.key)).Nodup →
    (∀ agg ∈ aggs, ∀ r ∈ chargesOf s.working account, RowKeepsKey agg r) →
    ∃ s' n, upsertAggregated s account aggs = .ok (s', n) ∧ (∀ a, UniqueIn s'.working a) ∧
      SameKeys s.working s'.working := by
  induction aggs with
  | nil => exact fun hu _ _ _ => ⟨_, _, rfl, hu, SameKeys.refl _⟩
  | cons agg aggs ih =>
    intro s hu hacc hnd hkeep
    rw [List.map_cons, List.nodup_cons] at hnd
    obtain ⟨s₁, isNew, hone⟩ := upsertOne_isOk agg hu hacc
    obtain ⟨q, hq, hput, haccounts⟩ := upsertOne_cases hone
    have hkeepHead := hkeep agg List.mem_cons_self
    have hrest : ∀ agg' ∈ aggs, ∀ r ∈ chargesOf s₁.working account, RowKeepsKey agg' r := by
      intro agg' hagg' r hr
      obtain ⟨hmem, hracc⟩ := mem_chargesOf.1 hr
      rw [hput, Table.mem_put] at hmem
      rcases hmem with rfl | ⟨hmem, _⟩
      · intro hkey
        rw [(hq.holds hkeepHead).key] at hkey
        exact absurd (List.mem_map.2 ⟨agg', hagg', hkey.symm⟩) hnd.1
      · exact hkeep agg' (List.mem_cons_of_mem _ hagg') r (mem_chargesOf.2 ⟨hmem, hracc⟩)
    obtain ⟨s', n, hall, hu', hsame⟩ := ih (uniqueIn_put hu hq hkeepHead hput)
      (by rw [haccounts]; exact hacc) hnd.2 hrest
    refine ⟨s', if isNew then (n.1 + 1, n.2) else (n.1, n.2 + 1), ?_, hu',
      (sameKeys_put hq hkeepHead hput).trans hsame⟩
    simp only [upsertAggregated, hone, hall]

/-- Where a row of the account is after all of them. -/
theorem row_after_all : ∀ {s s' : DbSession} {n : Nat × Nat},
    upsertAggregated s account aggs = .ok (s', n) → ∀ r ∈ chargesOf s.working account,
      ∃ r' ∈ s'.working.focusCharges, r'.id = r.id ∧ nativeKey r' = nativeKey r ∧
        (chargeKey r' = chargeKey r ∨ chargeKey r' = nativeKey r ∨
          chargeKey r' ∈ aggs.map (·.key)) := by
  induction aggs with
  | nil =>
    intro s s' n h r hr
    cases h
    exact ⟨r, (mem_chargesOf.1 hr).1, rfl, rfl, .inl rfl⟩
  | cons agg aggs ih =>
    intro s s' n h r hr
    obtain ⟨s₁, isNew, n', hone, hrest⟩ := upsertAggregated_cons h
    obtain ⟨q, hq, hput, _⟩ := upsertOne_cases hone
    obtain ⟨hkept, hupdated⟩ := row_after_one hq hput hr
    by_cases hkey : chargeKey r = agg.key
    · obtain ⟨r', hr', hid, hnative, hkey'⟩ := ih hrest _ (hupdated hkey)
      refine ⟨r', hr', hid, hnative, ?_⟩
      rcases hkey' with hkey' | hkey' | hkey'
      · rcases chargeKey_updatedCharge hkey with ⟨hsame, _⟩ | ⟨hfell, _⟩
        · exact .inl (hkey'.trans (hsame.trans hkey.symm))
        · exact .inr (.inl (hkey'.trans hfell))
      · exact .inr (.inl hkey')
      · exact .inr (.inr (List.mem_cons_of_mem _ hkey'))
    · obtain ⟨r', hr', hid, hnative, hkey'⟩ := ih hrest r (hkept hkey)
      exact ⟨r', hr', hid, hnative, hkey'.imp_right (.imp_right (List.mem_cons_of_mem _))⟩

/-- A row that ends with the key it had was kept by the aggregate of that key. -/
theorem keeps_of_same : ∀ {s s' : DbSession} {n : Nat × Nat}, (aggs.map (·.key)).Nodup →
    upsertAggregated s account aggs = .ok (s', n) → ∀ agg ∈ aggs,
    ∀ r ∈ chargesOf s.working account,
      (∃ r' ∈ s'.working.focusCharges, r'.id = r.id ∧ chargeKey r' = chargeKey r) →
      RowKeepsKey agg r := by
  induction aggs with
  | nil => intro s s' n _ _ agg hagg; cases hagg
  | cons head aggs ih =>
    intro s s' n hnd h agg hagg r hr hend hkey
    rw [List.map_cons, List.nodup_cons] at hnd
    obtain ⟨s₁, isNew, n', hone, hrest⟩ := upsertAggregated_cons h
    obtain ⟨q, hq, hput, _⟩ := upsertOne_cases hone
    obtain ⟨hkept, hupdated⟩ := row_after_one hq hput hr
    rcases List.mem_cons.1 hagg with rfl | hagg
    · rcases chargeKey_updatedCharge hkey with ⟨_, hsome⟩ | ⟨hfell, hnone⟩
      · exact .inl hsome
      · -- the row fell back to its native key, and no later aggregate brings it to this one
        refine .inr ?_
        obtain ⟨r', hr', hid, _, hkey'⟩ := row_after_all hrest _ (hupdated hkey)
        obtain ⟨x, hx, hxid, hxkey⟩ := hend
        have hxr : x = r' := Table.eq_of_key hx hr' (hxid.trans hid.symm)
        rw [← hxr, hxkey, hkey, hfell] at hkey'
        have hnative : agg.key = nativeKey r := by
          rcases hkey' with hkey' | hkey' | hkey'
          · exact hkey'
          · exact hkey'
          · exact absurd hkey' hnd.1
        have hfst := congrArg Prod.fst hnative
        simp only [AggregatedFocusCharge.key, hnone, Option.getD_none, nativeKey] at hfst
        exact hfst.symm
    · refine ih hnd.2 hrest agg hagg r (hkept fun hhead => hnd.1 ?_) hend hkey
      rw [← hhead, hkey]
      exact List.mem_map_of_mem hagg

theorem accountId_after : ∀ {s s' : DbSession} {n : Nat × Nat},
    upsertAggregated s account aggs = .ok (s', n) → ∀ r ∈ s'.working.focusCharges,
      r.accountId = account ∨ r ∈ s.working.focusCharges := by
  induction aggs with
  | nil => intro s s' n h r hr; cases h; exact .inr hr
  | cons agg aggs ih =>
    intro s s' n h r hr
    obtain ⟨s₁, isNew, n', hone, hrest⟩ := upsertAggregated_cons h
    obtain ⟨q, hq, hput, _⟩ := upsertOne_cases hone
    rcases ih hrest r hr with hacc | hmem
    · exact .inl hacc
    · rw [hput, Table.mem_put] at hmem
      rcases hmem with rfl | ⟨hmem, _⟩
      · exact .inl hq.accountId
      · exact .inr hmem

/-- The only way an upsert into a known account fails. -/
theorem upsertAggregated_error : ∀ {s : DbSession} {e : DbError},
    (s.working.accounts.get? account).isSome = true → upsertAggregated s account aggs = .error e →
    e = .multipleResultsFound := by
  induction aggs with
  | nil => intro s e _ h; cases h
  | cons agg aggs ih =>
    intro s e hacc h
    simp only [upsertAggregated] at h
    split at h
    · rename_i e' hone
      cases h
      simp only [upsertOne, hacc, if_true] at hone
      split at hone <;> cases hone
      rfl
    · rename_i s₁ isNew hone
      obtain ⟨_, _, _, haccounts⟩ := upsertOne_cases hone
      split at h
      · rename_i e' hrest
        cases h
        exact ih (by rw [haccounts]; exact hacc) hrest
      · cases h

end

/-! ## The ingests -/

structure Ingest where
  catalog : ServiceCatalog
  file : FocusFile
  externalId : String
  name : Option String

def ingestStep (lower : String → String) (t : Store) (i : Ingest) : Store :=
  match ingestInto lower i.catalog t i.file i.externalId i.name with
  | .error _ => t
  | .ok p => p.1

/-- What an ingest keeps of the keys. -/
structure KeySound (lower : String → String) (t : Store) (i : Ingest) : Prop where
  unique : ∀ account, UniqueIn (ingestStep lower t i) account
  same : SameKeys t (ingestStep lower t i)
  found : ingestInto lower i.catalog t i.file i.externalId i.name ≠
    .error (.db .multipleResultsFound)

/-- No aggregate of the file meets a row that would fall back to another native name. -/
def KeepsRows (lower : String → String) (t : Store) (i : Ingest) : Prop :=
  ∀ aggs, aggregateForStorage (loadFocus lower i.catalog i.file) = .ok aggs →
    ∀ a ∈ t.accounts, a.externalId = i.externalId →
      ∀ agg ∈ aggs, ∀ r ∈ chargesOf t a.id, RowKeepsKey agg r

/-- One account for an external id, every charge of an account. -/
structure Owned (t : Store) : Prop where
  accounts : ∀ a ∈ t.accounts, ∀ b ∈ t.accounts, a.externalId = b.externalId → a = b
  charges : ∀ r ∈ t.focusCharges, (t.accounts.get? r.accountId).isSome = true

/-- The account of an ingest is there, or is new and has no charges. -/
structure Resolved (t : Store) (externalId : String) (s : DbSession) (account : Account) : Prop where
  charges : s.working.focusCharges = t.focusCharges
  present : (s.working.accounts.get? account.id).isSome = true
  source : account ∈ t.accounts ∧ account.externalId = externalId ∨
    chargesOf t account.id = [] ∧ ∀ a ∈ t.accounts, a.externalId ≠ externalId
  owned : Owned s.working

theorem getOrCreate_resolved {t : Store} (ht : Owned t) (externalId : String)
    (name : Option String) : ∃ s account,
      Accounts.getOrCreate (.begin t) externalId name = .ok (s, account) ∧
        Resolved t externalId s account := by
  have hnd : (t.accounts.rows.filter fun a => a.externalId = externalId).Nodup :=
    (List.Nodup.of_map _ t.accounts.nodup).filter _
  have hmem : ∀ a, a ∈ (t.accounts.rows.filter fun a => a.externalId = externalId) ↔
      a ∈ t.accounts ∧ a.externalId = externalId := by
    intro a
    rw [List.mem_filter, decide_eq_true_eq]
    rfl
  simp only [Accounts.getOrCreate, Accounts.getByExternalId, Session.begin_working]
  generalize t.accounts.rows.filter (fun a => a.externalId = externalId) = found at hnd hmem
  rcases found with _ | ⟨x, _ | ⟨y, rest⟩⟩
  · let account := Accounts.newAccount t externalId name
    have hput : ∀ a, a ∈ t.accounts.put account ↔ a = account ∨ a ∈ t.accounts := fun a =>
      Table.mem_put_next rfl
    have hfresh : ∀ a ∈ t.accounts, a.externalId ≠ account.externalId := by
      intro a ha hext
      have := (hmem a).2 ⟨ha, hext⟩
      cases this
    refine ⟨_, _, rfl, rfl, ?_, .inr ⟨?_, fun a ha hext => hfresh a ha hext⟩,
      fun a ha b hb hext => ?_, fun r hr => ?_⟩
    · rw [Option.isSome_iff_exists]
      exact ⟨account, Table.get?_eq_some.2 ⟨Table.mem_put_self _ _, rfl⟩⟩
    · rw [chargesOf, List.filter_eq_nil_iff]
      intro r hr hacc
      obtain ⟨a, ha⟩ := Option.isSome_iff_exists.1 (ht.charges r hr)
      obtain ⟨ham, hid⟩ := Table.get?_eq_some.1 ha
      exact Table.fresh_next ham (hid.trans (of_decide_eq_true hacc))
    · rcases (hput a).1 ha with rfl | ha
      · rcases (hput b).1 hb with rfl | hb
        · rfl
        · exact absurd hext.symm (hfresh b hb)
      · rcases (hput b).1 hb with rfl | hb
        · exact absurd hext (hfresh a ha)
        · exact ht.accounts a ha b hb hext
    · obtain ⟨a, ha⟩ := Option.isSome_iff_exists.1 (ht.charges r hr)
      obtain ⟨ham, hid⟩ := Table.get?_eq_some.1 ha
      rw [Option.isSome_iff_exists]
      exact ⟨a, Table.get?_eq_some.2 ⟨(hput a).2 (.inr ham), hid⟩⟩
  · obtain ⟨ha, hext⟩ := (hmem x).1 (List.mem_singleton_self x)
    refine ⟨_, _, rfl, rfl, ?_, .inl ⟨ha, hext⟩, ht⟩
    rw [Option.isSome_iff_exists]
    exact ⟨x, Table.get?_eq_some.2 ⟨ha, rfl⟩⟩
  · obtain ⟨hx, hxe⟩ := (hmem x).1 (by simp)
    obtain ⟨hy, hye⟩ := (hmem y).1 (by simp)
    have hxy := ht.accounts x hx y hy (hxe.trans hye.symm)
    rw [hxy] at hnd
    simp at hnd

/-- An ingest is refused, or is an upsert into the account it resolves. -/
theorem ingestInto_cases {t : Store} (ht : Owned t) (lower : String → String) (i : Ingest) :
    (∃ e, aggregateForStorage (loadFocus lower i.catalog i.file) = .error e ∧
      ingestInto lower i.catalog t i.file i.externalId i.name = .error (.value e)) ∨
    ∃ aggs s account, aggregateForStorage (loadFocus lower i.catalog i.file) = .ok aggs ∧
      Resolved t i.externalId s account ∧
      ((∃ e, upsertAggregated s account.id aggs = .error e ∧
          ingestInto lower i.catalog t i.file i.externalId i.name = .error (.db e)) ∨
        ∃ s' n r, upsertAggregated s account.id aggs = .ok (s', n) ∧
          ingestInto lower i.catalog t i.file i.externalId i.name = .ok (s'.working, r)) := by
  obtain ⟨s, account, hget, hresolved⟩ := getOrCreate_resolved ht i.externalId i.name
  simp only [ingestInto, ingestFocusFile]
  cases hagg : aggregateForStorage (loadFocus lower i.catalog i.file) with
  | error e => exact .inl ⟨e, rfl, rfl⟩
  | ok aggs =>
    refine .inr ⟨aggs, s, account, rfl, hresolved, ?_⟩
    simp only [hget]
    cases hup : upsertAggregated s account.id aggs with
    | error e => exact .inl ⟨e, rfl, rfl⟩
    | ok p => exact .inr ⟨p.1, p.2, _, rfl, rfl⟩

structure Inv (t : Store) : Prop extends Owned t where
  unique : ∀ account, UniqueIn t account

theorem inv_empty : Inv .empty where
  accounts a ha := by cases ha
  charges r hr := by cases hr
  unique account x hx := by cases hx

theorem owned_step {t : Store} (ht : Owned t) (lower : String → String) (i : Ingest) :
    Owned (ingestStep lower t i) := by
  rw [ingestStep]
  rcases ingestInto_cases ht lower i with ⟨e, _, hi⟩ | ⟨aggs, s, account, _, hs, hup⟩
  · rw [hi]
    exact ht
  · rcases hup with ⟨e, _, hi⟩ | ⟨s', n, r, hup, hi⟩
    · rw [hi]
      exact ht
    · rw [hi]
      have haccounts := upsertAggregated_accounts hup
      refine ⟨?_, fun r hr => ?_⟩
      · rw [haccounts]
        exact hs.owned.accounts
      · rw [haccounts]
        rcases accountId_after hup r hr with hacc | hmem
        · rw [hacc]
          exact hs.present
        · exact hs.owned.charges r hmem

/-- The rows the aggregates meet are those of the store. -/
theorem keepsRows_resolved {t : Store} {lower : String → String} {i : Ingest} (ht : Owned t)
    {aggs : List AggregatedFocusCharge} {s : DbSession} {account : Account}
    (hagg : aggregateForStorage (loadFocus lower i.catalog i.file) = .ok aggs)
    (hs : Resolved t i.externalId s account) :
    KeepsRows lower t i ↔
      ∀ agg ∈ aggs, ∀ r ∈ chargesOf s.working account.id, RowKeepsKey agg r := by
  have hcharges : chargesOf s.working account.id = chargesOf t account.id := by
    rw [chargesOf, hs.charges]
    rfl
  rw [hcharges]
  constructor
  · intro h agg hm r hr
    rcases hs.source with ⟨hmem, hext⟩ | hnone
    · exact h aggs hagg account hmem hext agg hm r hr
    · rw [hnone.1] at hr
      cases hr
  · intro h aggs' hagg' a ha hext agg hm r hr
    rw [hagg] at hagg'
    cases hagg'
    rcases hs.source with ⟨hmem, hext'⟩ | ⟨_, hnone⟩
    · rw [ht.accounts a ha account hmem (hext.trans hext'.symm)] at hr
      exact h agg hm r hr
    · exact absurd hext (hnone a ha)

theorem keySound_iff_step {t : Store} (ht : Inv t) (lower : String → String) (i : Ingest) :
    KeySound lower t i ↔ KeepsRows lower t i := by
  rcases ingestInto_cases ht.toOwned lower i with ⟨e, hagg, hi⟩ | ⟨aggs, s, account, hagg, hs, hup⟩
  · have hstep : ingestStep lower t i = t := by rw [ingestStep, hi]
    constructor
    · intro _ aggs' hagg'
      rw [hagg] at hagg'
      cases hagg'
    · intro _
      refine ⟨?_, ?_, ?_⟩
      · rw [hstep]
        exact ht.unique
      · rw [hstep]
        exact SameKeys.refl t
      · rw [hi]
        intro h
        cases h
  · rw [keepsRows_resolved ht.toOwned hagg hs]
    have hnd : (aggs.map (·.key)).Nodup := by
      rw [(aggregateForStorage_mem hagg).1]
      exact (bucketRows _).nodup
    constructor
    · intro hsound
      rcases hup with ⟨e, herror, hi⟩ | ⟨s', n, r, hup, hi⟩
      · rw [upsertAggregated_error hs.present herror] at hi
        exact absurd hi hsound.found
      · intro agg hm r hr
        refine keeps_of_same hnd hup agg hm r hr ?_
        have hsame := hsound.same r (hs.charges ▸ (mem_chargesOf.1 hr).1)
        rw [ingestStep, hi] at hsame
        obtain ⟨r', hr', hid, _, hkey⟩ := hsame
        exact ⟨r', hr', hid, hkey⟩
    · intro hkeep
      have hunique : ∀ a, UniqueIn s.working a := by
        intro a x hx y hy
        simp only [chargesOf, hs.charges] at hx hy
        exact ht.unique a x hx y hy
      obtain ⟨s₁, n₁, hup₁, hunique₁, hsame₁⟩ :=
        upsertAggregated_keyed hunique hs.present hnd hkeep
      rcases hup with ⟨e, herror, hi⟩ | ⟨s', n, r, hup, hi⟩
      · rw [hup₁] at herror
        cases herror
      · rw [hup₁] at hup
        cases hup
        refine ⟨?_, ?_, ?_⟩
        · rw [ingestStep, hi]
          exact hunique₁
        · rw [ingestStep, hi]
          intro r hr
          exact hsame₁ r (hs.charges.symm ▸ hr)
        · rw [hi]
          intro h
          cases h

/-- Over any sequence of ingests the keys stay unique and every row keeps its own, and no lookup
finds two rows, exactly when no aggregate meets a row that would fall back to another name. -/
theorem keySound_iff (lower : String → String) (is : List Ingest) :
    Along (ingestStep lower) (KeySound lower) .empty is ↔
      Along (ingestStep lower) (KeepsRows lower) .empty is := by
  constructor
  · exact Along.of_inv (fun t i ht hsound => ⟨⟨owned_step ht.toOwned lower i, hsound.unique⟩,
      (keySound_iff_step ht lower i).1 hsound⟩) inv_empty
  · refine Along.of_inv (fun t i ht hkeep => ?_) inv_empty
    have hsound := (keySound_iff_step ht lower i).2 hkeep
    exact ⟨⟨owned_step ht.toOwned lower i, hsound.unique⟩, hsound⟩

/-! ## A native name that is a canonical name elsewhere -/

def namedRow (service : String) : RowCells := { rdsRow "USD" with service := service }

def ingestOf (catalog : ServiceCatalog) (service : String) : Ingest where
  catalog := catalog
  file := ⟨"aws", some 1, [.ok (namedRow service)]⟩
  externalId := "123456789012"
  name := none

/-- The mapped row is found under the name `managed_postgres`, loses its canonical name, and is then
a second row with the key `Amazon RDS`. -/
def collidingIngests : List Ingest :=
  [ingestOf rdsCatalog "Amazon RDS", ingestOf noCatalog "Amazon RDS",
    ingestOf noCatalog "managed_postgres"]

/-- The fourth ingest finds two rows. -/
theorem lookup_finds_two : ¬ Along (ingestStep String.toLower) (KeySound String.toLower) .empty
    (collidingIngests ++ [ingestOf noCatalog "Amazon RDS"]) := by
  intro h
  have hsound := (Along.append.1 h).2.1.found
  have hrun : (ingestInto String.toLower noCatalog
      (exec (ingestStep String.toLower) .empty collidingIngests)
      (ingestOf noCatalog "Amazon RDS").file "123456789012" none).map (fun _ => ()) =
        .error (.db .multipleResultsFound) := by decide +kernel
  cases hresult : ingestInto String.toLower noCatalog
      (exec (ingestStep String.toLower) .empty collidingIngests)
      (ingestOf noCatalog "Amazon RDS").file "123456789012" none with
  | error e =>
    rw [hresult] at hrun
    cases hrun
    exact hsound hresult
  | ok p =>
    rw [hresult] at hrun
    cases hrun

end Focus

end Constat
