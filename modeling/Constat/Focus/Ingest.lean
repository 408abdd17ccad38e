import Constat.Focus.Storage
import Constat.Inventory

/-!
# Focus.Ingest

`cli/focus.py`: a FOCUS file is loaded, aggregated and upserted for one account, and the session
commits. The loader resolves the service name of each row in the service catalog, so the key a row
is stored under depends on the catalog of the day.

* `upsertOne_cases`        — what one aggregate does to `focus_charges`: one row is put, a new one
                             or the one that had the aggregate's key.
* `upsertAggregated_charges` — the charges of the account after an upsert: one row per aggregate,
                             and the earlier rows whose key is no aggregate's key.
-/

namespace Constat

namespace Focus

/-! ## The service catalog -/

/-- Native names are kept in lower case, by provider. No canonical name is empty. -/
structure ServiceCatalog where
  byNative : Dict (String × String) String
  named : ∀ p ∈ byNative.items, p.2 ≠ ""

namespace ServiceCatalog

theorem named_empty : ∀ p ∈ (Dict.empty : Dict (String × String) String).items, p.2 ≠ "" := by
  intro p hp
  cases hp

/-- `lower` is `str.lower`. -/
def canonicalFor (catalog : ServiceCatalog) (lower : String → String) (provider native : String) :
    Option String :=
  catalog.byNative.get? (provider, lower native)

/-- The catalog has gained mappings and lost none. -/
def Extends (later earlier : ServiceCatalog) : Prop :=
  ∀ k v, earlier.byNative.get? k = some v → later.byNative.get? k = some v

theorem canonicalFor_ne {catalog : ServiceCatalog} {lower : String → String}
    {provider native : String} : catalog.canonicalFor lower provider native ≠ some "" := by
  intro h
  exact catalog.named _ (Dict.get?_eq_some.1 h) rfl

end ServiceCatalog

/-! ## The loader -/

/-- The cells of one line as `_row_to_charge` parses them. -/
structure RowCells where
  accountId : String
  accountName : String
  service : String
  region : Option String
  pricingCategory : Option String
  periodStart : Date
  periodEnd : Date
  billedCost : Rat
  amortizedCost : Rat
  resourceId : Option String
  subAccountId : Option String
  tags : TagDict
  billingCurrency : String
deriving DecidableEq

/-- An export: the provider its first row shows, the number of lines (`none` when the footer of
the file cannot be read), and for each line its cells or what parsing them raised. -/
structure FocusFile where
  provider : String
  rowsTotal : Option Nat
  rows : List (Except PyError RowCells)

section

variable (lower : String → String) (catalog : ServiceCatalog)

def rowToCharge (provider : String) (row : RowCells) : FocusCharge where
  accountId := row.accountId
  accountName := row.accountName
  service := row.service
  serviceCanonical :=
    if provider = "" then none else catalog.canonicalFor lower provider row.service
  region := row.region
  pricingCategory := row.pricingCategory
  periodStart := row.periodStart
  periodEnd := row.periodEnd
  billedCost := row.billedCost
  amortizedCost := row.amortizedCost
  resourceId := row.resourceId
  subAccountId := row.subAccountId
  tags := [row.tags]
  perRowCosts := [(row.billedCost, row.amortizedCost)]
  billingCurrency := row.billingCurrency

/-- The rows that parse; the others are skipped. -/
def FocusFile.parsed (file : FocusFile) : List RowCells := file.rows.filterMap Except.toOption

def loadFocus (file : FocusFile) : List FocusCharge :=
  file.parsed.map (rowToCharge lower catalog file.provider)

end

/-! ## The ingest -/

structure IngestResult where
  accountExternalId : String
  accountId : Uuid
  rowsTotal : Option Nat
  rowsRead : Nat
  rowsSkipped : Nat
  rowsWritten : Nat
  inserted : Nat
  updated : Nat
deriving DecidableEq

inductive IngestError where
  | value (e : PyError)
  | db (e : DbError)
deriving DecidableEq

def rowsSkipped (file : FocusFile) (rowsRead : Nat) : Nat :=
  match file.rowsTotal with
  | none => file.rows.length - rowsRead
  | some total => total - rowsRead

/-- Load, aggregate and upsert one file, then commit. A raised error leaves the session to its
caller, who closes it. -/
def ingestFocusFile (lower : String → String) (catalog : ServiceCatalog) (s : DbSession)
    (file : FocusFile) (accountExternalId : String) (accountName : Option String) :
    Except IngestError (DbSession × IngestResult) :=
  let rawCharges := loadFocus lower catalog file
  match aggregateForStorage rawCharges with
  | .error e => .error (.value e)
  | .ok aggregated =>
    match Accounts.getOrCreate s accountExternalId accountName with
    | .error e => .error (.db e)
    | .ok (s, account) =>
      match upsertAggregated s account.id aggregated with
      | .error e => .error (.db e)
      | .ok (s, inserted, updated) =>
        .ok (s.commit, {
          accountExternalId := accountExternalId
          accountId := account.id
          rowsTotal := file.rowsTotal
          rowsRead := rawCharges.length
          rowsSkipped := rowsSkipped file rawCharges.length
          rowsWritten := inserted + updated
          inserted := inserted
          updated := updated })

section

variable {lower : String → String} {catalog : ServiceCatalog} {s s' : DbSession}
  {file : FocusFile} {externalId : String} {name : Option String} {result : IngestResult}

/-- The four statements of an ingest that does not raise. -/
theorem ingestFocusFile_ok
    (h : ingestFocusFile lower catalog s file externalId name = .ok (s', result)) :
    ∃ aggs s₀ account s₁ n, aggregateForStorage (loadFocus lower catalog file) = .ok aggs ∧
      Accounts.getOrCreate s externalId name = .ok (s₀, account) ∧
      upsertAggregated s₀ account.id aggs = .ok (s₁, n) ∧ s' = s₁.commit ∧
      result.accountId = account.id := by
  simp only [ingestFocusFile] at h
  split at h
  · cases h
  · rename_i aggs hagg
    split at h
    · cases h
    · rename_i s₀ account hacc
      split at h
      · cases h
      · rename_i s₁ inserted updated hup
        cases h
        exact ⟨aggs, s₀, account, s₁, (inserted, updated), hagg, hacc, hup, rfl, rfl⟩

end

/-- One call in a session of its own, as `main` makes it. -/
def ingestInto (lower : String → String) (catalog : ServiceCatalog) (store : Store)
    (file : FocusFile) (accountExternalId : String) (accountName : Option String) :
    Except IngestError (Store × IngestResult) :=
  (ingestFocusFile lower catalog (.begin store) file accountExternalId accountName).map
    fun p => (p.1.close, p.2)

theorem getOrCreate_spec {s s' : DbSession} {externalId : String} {name : Option String}
    {account : Account} (h : Accounts.getOrCreate s externalId name = .ok (s', account)) :
    s'.working.focusCharges = s.working.focusCharges ∧
      s'.working.accounts.rows.filter (fun a => a.externalId = externalId) = [account] := by
  simp only [Accounts.getOrCreate] at h
  split at h
  · cases h
  · rename_i found hfound
    cases h
    exact ⟨rfl, eq_singleton_of_scalarOneOrNone hfound⟩
  · rename_i hnone
    cases h
    refine ⟨rfl, ?_⟩
    have hput : (s.write (.account (Accounts.newAccount s.working externalId name))).working.accounts.rows
        = s.working.accounts.rows ++ [Accounts.newAccount s.working externalId name] :=
      Table.rows_put_next _ rfl
    rw [hput, List.filter_append, eq_nil_of_scalarOneOrNone hnone, List.nil_append]
    exact List.filter_cons_of_pos (decide_eq_true rfl)

/-! ## What one aggregate does -/

/-- Writing tags changes neither the charges nor the accounts. -/
theorem writePerRowTags_frame (s : DbSession) (id : Nat) (dicts : List TagDict)
    (costs : List (Rat × Rat)) :
    (writePerRowTags s id dicts costs).working.focusCharges = s.working.focusCharges ∧
      (writePerRowTags s id dicts costs).working.accounts = s.working.accounts := by
  by_cases hne : dicts = []
  · rw [writePerRowTags, if_pos (by rw [hne]; rfl)]
    exact ⟨rfl, rfl⟩
  · exact (writePerRowTags_spec s id costs hne).2.2

/-- The row an aggregate is stored in: a new one when no row has its key, else the one that has. -/
inductive StoresIn (s : Store) (account : Uuid) (agg : AggregatedFocusCharge) :
    FocusChargeRow → Prop where
  | inserted (hnone : matching s account agg.key = []) :
      StoresIn s account agg (newCharge s account agg)
  | updated {old : FocusChargeRow} (hone : matching s account agg.key = [old]) :
      StoresIn s account agg (updatedCharge old agg)

theorem upsertOne_cases {s s' : DbSession} {account : Uuid} {agg : AggregatedFocusCharge}
    {isNew : Bool} (h : upsertOne s account agg = .ok (s', isNew)) :
    ∃ r, StoresIn s.working account agg r ∧
      s'.working.focusCharges = s.working.focusCharges.put r ∧
      s'.working.accounts = s.working.accounts := by
  simp only [upsertOne] at h
  split at h
  · rename_i hnone
    split at h
    · cases h
      have hframe := writePerRowTags_frame (s.write (.focusCharge (newCharge s.working account agg)))
        (newCharge s.working account agg).id agg.perRowTagDicts agg.perRowCosts
      exact ⟨_, .inserted hnone, hframe.1, hframe.2⟩
    · cases h
  · rename_i old hone
    cases h
    have hframe := writePerRowTags_frame (s.write (.focusCharge (updatedCharge old agg)))
      old.id agg.perRowTagDicts agg.perRowCosts
    exact ⟨_, .updated hone, hframe.1, hframe.2⟩
  · cases h

/-- The steps of an upsert that does not raise. -/
theorem upsertAggregated_cons {s s' : DbSession} {account : Uuid} {agg : AggregatedFocusCharge}
    {aggs : List AggregatedFocusCharge} {n : Nat × Nat}
    (h : upsertAggregated s account (agg :: aggs) = .ok (s', n)) :
    ∃ s₁ isNew n', upsertOne s account agg = .ok (s₁, isNew) ∧
      upsertAggregated s₁ account aggs = .ok (s', n') := by
  simp only [upsertAggregated] at h
  split at h
  · cases h
  · rename_i s₁ isNew hone
    split at h
    · cases h
    · rename_i s₂ ins upd hrest
      cases h
      exact ⟨s₁, isNew, (ins, upd), hone, hrest⟩

theorem upsertAggregated_accounts {account : Uuid} {aggs : List AggregatedFocusCharge} :
    ∀ {s s' : DbSession} {n : Nat × Nat}, upsertAggregated s account aggs = .ok (s', n) →
      s'.working.accounts = s.working.accounts := by
  induction aggs with
  | nil => intro s s' n h; cases h; rfl
  | cons agg aggs ih =>
    intro s s' n h
    obtain ⟨s₁, isNew, n', hone, hrest⟩ := upsertAggregated_cons h
    obtain ⟨_, _, _, hacc⟩ := upsertOne_cases hone
    rw [ih hrest, hacc]

/-! ## The charges of an account -/

def chargesOf (s : Store) (account : Uuid) : List FocusChargeRow :=
  s.focusCharges.rows.filter fun r => r.accountId = account

theorem mem_chargesOf {s : Store} {account : Uuid} {r : FocusChargeRow} :
    r ∈ chargesOf s account ↔ r ∈ s.focusCharges ∧ r.accountId = account := by
  rw [chargesOf, List.mem_filter, decide_eq_true_eq, Table.mem_def]

/-- A row with the key, the costs and the currency of an aggregate. -/
structure HoldsAggregate (account : Uuid) (agg : AggregatedFocusCharge) (r : FocusChargeRow) :
    Prop where
  accountId : r.accountId = account
  key : chargeKey r = agg.key
  canonical : r.serviceCanonical = agg.serviceCanonical
  billedCost : r.billedCost = numeric6 agg.billedCost
  amortizedCost : r.amortizedCost = numeric6 agg.amortizedCost
  currency : r.billingCurrency = agg.billingCurrency

/-- The row keeps its key when it takes the aggregate: there is a canonical name, or the native
ones agree. -/
def RowKeepsKey (agg : AggregatedFocusCharge) (r : FocusChargeRow) : Prop :=
  chargeKey r = agg.key → agg.serviceCanonical.isSome ∨ r.service = agg.service

namespace StoresIn

variable {s : Store} {account : Uuid} {agg : AggregatedFocusCharge} {r : FocusChargeRow}

/-- The row that is put replaces those with the key of the aggregate. -/
theorem id_iff (h : StoresIn s account agg r) {x : FocusChargeRow} (hx : x ∈ chargesOf s account) :
    x.id = r.id ↔ chargeKey x = agg.key := by
  obtain ⟨hxm, hxa⟩ := mem_chargesOf.1 hx
  cases h with
  | inserted hnone =>
    constructor
    · intro hid; exact absurd hid (Table.fresh_next hxm)
    · intro hkey
      have : x ∈ matching s account agg.key := mem_matching.2 ⟨hxm, hxa, hkey⟩
      rw [hnone] at this
      cases this
  | @updated old hone =>
    have hold : old ∈ matching s account agg.key := by
      rw [hone]; exact List.mem_singleton.2 rfl
    obtain ⟨holdm, _, holdk⟩ := mem_matching.1 hold
    constructor
    · intro hid
      rw [Table.eq_of_key hxm holdm hid]
      exact holdk
    · intro hkey
      have : x ∈ matching s account agg.key := mem_matching.2 ⟨hxm, hxa, hkey⟩
      rw [hone, List.mem_singleton] at this
      rw [this]; rfl

theorem accountId (h : StoresIn s account agg r) : r.accountId = account := by
  cases h with
  | inserted hnone => rfl
  | @updated old hone =>
    have hold : old ∈ matching s account agg.key := by
      rw [hone]; exact List.mem_singleton.2 rfl
    exact (mem_matching.1 hold).2.1

theorem holds (h : StoresIn s account agg r)
    (hkeep : ∀ x ∈ chargesOf s account, RowKeepsKey agg x) : HoldsAggregate account agg r := by
  have hacc := h.accountId
  cases h with
  | inserted hnone => exact ⟨hacc, rfl, rfl, rfl, rfl, rfl⟩
  | @updated old hone =>
    have hold : old ∈ matching s account agg.key := by
      rw [hone]; exact List.mem_singleton.2 rfl
    obtain ⟨holdm, holda, holdk⟩ := mem_matching.1 hold
    have hperiod : (old.periodStart, old.periodEnd) = (agg.periodStart, agg.periodEnd) :=
      congrArg Prod.snd holdk
    refine ⟨hacc, Prod.ext ?_ hperiod, rfl, rfl, rfl, rfl⟩
    change agg.serviceCanonical.getD old.service = agg.serviceCanonical.getD agg.service
    rcases hkeep old (mem_chargesOf.2 ⟨holdm, holda⟩) holdk with hsome | hservice
    · obtain ⟨v, hv⟩ := Option.isSome_iff_exists.1 hsome
      rw [hv]; rfl
    · rw [hservice]

end StoresIn

end Focus

end Constat
