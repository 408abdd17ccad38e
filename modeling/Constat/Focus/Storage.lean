import Mathlib.Algebra.Order.Floor.Defs
import Mathlib.Data.Rat.Floor
import Constat.Focus.Aggregator

/-!
# Focus.Storage

`repositories/focus_charges.py`: aggregates go into `focus_charges` (one row per account, service
and period) and `focus_charge_tags` (one row per input row and tag). An input row without tags
has no row in `focus_charge_tags`.

* `mem_tagEntries`       — which tag rows are written for a list of input rows.
* `upsertOne_spec`       — what one aggregate does to the two tables.
* `upsertAggregated_stores` — after an ingest every aggregate is stored under its own key with
                           its own tag rows (`StoredAs`).
-/

namespace Constat

namespace Focus

/-! ## NUMERIC(p, 6) columns -/

/-- Round half away from zero, as NUMERIC does. -/
def roundHalfAway (q : Rat) : Int :=
  if 0 ≤ q then ⌊q + 1 / 2⌋ else -⌊-q + 1 / 2⌋

/-- What a column of scale six stores. -/
def numeric6 (q : Rat) : Rat := roundHalfAway (q * 1000000) / 1000000

/-- At most six decimals. -/
def SixDecimals (q : Rat) : Prop := ∃ n : Int, q = n / 1000000

theorem floor_add_half (n : Int) : ⌊(n : Rat) + 1 / 2⌋ = n := by
  rw [Int.floor_eq_iff]
  constructor <;> linarith

theorem roundHalfAway_int (n : Int) : roundHalfAway n = n := by
  rw [roundHalfAway]
  split
  · exact floor_add_half n
  · rw [show -(n : Rat) + 1 / 2 = ((-n : Int) : Rat) + 1 / 2 by push_cast; ring, floor_add_half,
      neg_neg]

/-- A column of scale six keeps a value of at most six decimals. -/
theorem numeric6_of_sixDecimals {q : Rat} (h : SixDecimals q) : numeric6 q = q := by
  obtain ⟨n, rfl⟩ := h
  rw [numeric6, div_mul_cancel₀ _ (by norm_num), roundHalfAway_int]

theorem sixDecimals_zero : SixDecimals 0 := ⟨0, by norm_num⟩

theorem SixDecimals.add {p q : Rat} (hp : SixDecimals p) (hq : SixDecimals q) :
    SixDecimals (p + q) := by
  obtain ⟨m, rfl⟩ := hp
  obtain ⟨n, rfl⟩ := hq
  exact ⟨m + n, by push_cast; ring⟩

theorem sixDecimals_sum {l : List Rat} (h : ∀ q ∈ l, SixDecimals q) : SixDecimals l.sum := by
  induction l with
  | nil => exact sixDecimals_zero
  | cons q l ih =>
    rw [List.forall_mem_cons] at h
    rw [List.sum_cons]
    exact h.1.add (ih h.2)

/-! ## Writing the tags -/

/-- A tag row without its ids. -/
structure TagEntry where
  key : String
  value : String
  inputRowIndex : Nat
  billedCost : Rat
  amortizedCost : Rat
deriving DecidableEq

def tagEntry (r : FocusChargeTagRow) : TagEntry :=
  ⟨r.key, r.value, r.inputRowIndex, r.billedCost, r.amortizedCost⟩

/-- One entry per (key, value) of each input row from index `i` on, with the row's costs. -/
def tagEntries (i : Nat) : List TagDict → List (Rat × Rat) → List TagEntry
  | [], _ => []
  | d :: dicts, costs =>
    let cost := costs.headD (0, 0)
    d.items.map (fun p => ⟨p.1, p.2, i, numeric6 cost.1, numeric6 cost.2⟩) ++
      tagEntries (i + 1) dicts costs.tail

def tagRow (s : Store) (focusChargeId : Nat) (e : TagEntry) : FocusChargeTagRow where
  id := s.focusChargeTags.next
  focusChargeId := focusChargeId
  key := e.key
  value := e.value
  inputRowIndex := e.inputRowIndex
  billedCost := e.billedCost
  amortizedCost := e.amortizedCost

/-- Replace the tag rows of a charge by those of the new ingest. -/
def writePerRowTags (s : DbSession) (focusChargeId : Nat) (perRowTagDicts : List TagDict)
    (perRowCosts : List (Rat × Rat)) : DbSession :=
  if perRowTagDicts.isEmpty then s
  else
    (tagEntries 0 perRowTagDicts perRowCosts).foldl
      (fun s e => s.write (.focusChargeTag (tagRow s.working focusChargeId e)))
      (s.write (.deleteChargeTagsOf focusChargeId))

/-! ## Upsert -/

/-- `COALESCE(service_canonical, service)` and the period. -/
def chargeKey (r : FocusChargeRow) : BucketKey :=
  (r.serviceCanonical.getD r.service, r.periodStart, r.periodEnd)

def matching (s : Store) (account : Uuid) (key : BucketKey) : List FocusChargeRow :=
  s.focusCharges.rows.filter fun r => r.accountId = account ∧ chargeKey r = key

def newCharge (s : Store) (account : Uuid) (agg : AggregatedFocusCharge) : FocusChargeRow where
  id := s.focusCharges.next
  accountId := account
  periodStart := agg.periodStart
  periodEnd := agg.periodEnd
  service := agg.service
  serviceCanonical := agg.serviceCanonical
  region := agg.region
  pricingCategory := agg.pricingCategory
  billedCost := numeric6 agg.billedCost
  amortizedCost := numeric6 agg.amortizedCost
  resourceId := agg.resourceId
  subAccountId := agg.subAccountId
  tags := agg.tags
  chargeCount := agg.chargeCount
  billingCurrency := agg.billingCurrency

/-- The update keeps the row's native service name. -/
def updatedCharge (existing : FocusChargeRow) (agg : AggregatedFocusCharge) : FocusChargeRow :=
  { existing with
    billedCost := numeric6 agg.billedCost
    amortizedCost := numeric6 agg.amortizedCost
    chargeCount := agg.chargeCount
    region := agg.region
    pricingCategory := agg.pricingCategory
    resourceId := agg.resourceId
    subAccountId := agg.subAccountId
    tags := agg.tags
    billingCurrency := agg.billingCurrency
    serviceCanonical := agg.serviceCanonical }

/-- One aggregate: its row is inserted or updated, then its tag rows are replaced. -/
def upsertOne (s : DbSession) (account : Uuid) (agg : AggregatedFocusCharge) :
    Except DbError (DbSession × Bool) :=
  match matching s.working account agg.key with
  | [] =>
    if (s.working.accounts.get? account).isSome then
      let row := newCharge s.working account agg
      .ok (writePerRowTags (s.write (.focusCharge row)) row.id agg.perRowTagDicts agg.perRowCosts,
        true)
    else .error .integrityError
  | [existing] =>
    .ok (writePerRowTags (s.write (.focusCharge (updatedCharge existing agg))) existing.id
      agg.perRowTagDicts agg.perRowCosts, false)
  | _ => .error .multipleResultsFound

/-- Insert or update rows; returns the (inserted, updated) counts with the session. -/
def upsertAggregated (s : DbSession) (account : Uuid) :
    List AggregatedFocusCharge → Except DbError (DbSession × Nat × Nat)
  | [] => .ok (s, 0, 0)
  | agg :: aggs =>
    match upsertOne s account agg with
    | .error e => .error e
    | .ok (s, isNew) =>
      match upsertAggregated s account aggs with
      | .error e => .error e
      | .ok (s, inserted, updated) =>
        .ok (s, if isNew then (inserted + 1, updated) else (inserted, updated + 1))

/-! ## What is written -/

/-- An entry comes from one input row that has the tag, and carries that row's costs. -/
theorem mem_tagEntries {e : TagEntry} {dicts : List TagDict} {costs : List (Rat × Rat)} {i : Nat} :
    e ∈ tagEntries i dicts costs ↔ ∃ j d, dicts[j]? = some d ∧ (e.key, e.value) ∈ d.items ∧
      e.inputRowIndex = i + j ∧ e.billedCost = numeric6 (costs.getD j (0, 0)).1 ∧
      e.amortizedCost = numeric6 (costs.getD j (0, 0)).2 := by
  induction dicts generalizing i costs with
  | nil => simp [tagEntries]
  | cons d dicts ih =>
    rw [tagEntries, List.mem_append, ih, List.mem_map]
    constructor
    · rintro (⟨p, hp, rfl⟩ | ⟨j, d', hd', hkv, hidx, hb, ha⟩)
      · refine ⟨0, d, rfl, hp, rfl, ?_, ?_⟩ <;> cases costs <;> rfl
      · refine ⟨j + 1, d', hd', hkv, by omega, ?_, ?_⟩
        · rw [hb]; cases costs <;> rfl
        · rw [ha]; cases costs <;> rfl
    · rintro ⟨j, d', hd', hkv, hidx, hb, ha⟩
      cases j with
      | zero =>
        rw [List.getElem?_cons_zero, Option.some.injEq] at hd'
        subst hd'
        refine .inl ⟨(e.key, e.value), hkv, ?_⟩
        have hhead : costs.getD 0 (0, 0) = costs.headD (0, 0) := by cases costs <;> rfl
        rw [hhead] at hb ha
        cases e
        simp only at hidx hb ha ⊢
        rw [hidx, hb, ha, Nat.add_zero]
      | succ j =>
        refine .inr ⟨j, d', hd', hkv, by omega, ?_, ?_⟩
        · rw [hb]; cases costs <;> simp
        · rw [ha]; cases costs <;> simp

def tagRowsOfCharge (s : Store) (id : Nat) : List FocusChargeTagRow :=
  s.focusChargeTags.rows.filter fun r => r.focusChargeId = id

theorem writeEntries_working (id : Nat) (es : List TagEntry) (s : DbSession) :
    ∃ t : Table FocusChargeTagRow.id, ∃ new : List FocusChargeTagRow,
      (es.foldl (fun s e => s.write (.focusChargeTag (tagRow s.working id e))) s).working =
        { s.working with focusChargeTags := t } ∧
      t.rows = s.working.focusChargeTags.rows ++ new ∧ new.map tagEntry = es ∧
      ∀ r ∈ new, r.focusChargeId = id := by
  induction es generalizing s with
  | nil => exact ⟨s.working.focusChargeTags, [], rfl, by rw [List.append_nil], rfl, by simp⟩
  | cons e es ih =>
    obtain ⟨t, new, hw, ht, hn, hid⟩ := ih (s.write (.focusChargeTag (tagRow s.working id e)))
    have hput : ((s.write (.focusChargeTag (tagRow s.working id e))).working).focusChargeTags.rows =
        s.working.focusChargeTags.rows ++ [tagRow s.working id e] :=
      Table.rows_put_next _ rfl
    refine ⟨t, tagRow s.working id e :: new, hw, ?_, ?_, ?_⟩
    · rw [ht, hput, List.append_assoc, List.singleton_append]
    · rw [List.map_cons, hn]; rfl
    · exact List.forall_mem_cons.2 ⟨rfl, hid⟩

/-- The tag rows of the charge become the new entries; nothing else changes. -/
theorem writePerRowTags_spec (s : DbSession) (id : Nat) {dicts : List TagDict}
    (costs : List (Rat × Rat)) (hne : dicts ≠ []) :
    ((tagRowsOfCharge (writePerRowTags s id dicts costs).working id).map tagEntry =
        tagEntries 0 dicts costs) ∧
      (∀ j, j ≠ id → tagRowsOfCharge (writePerRowTags s id dicts costs).working j =
        tagRowsOfCharge s.working j) ∧
      (writePerRowTags s id dicts costs).working.focusCharges = s.working.focusCharges ∧
      (writePerRowTags s id dicts costs).working.accounts = s.working.accounts := by
  obtain ⟨t, new, hw, ht, hn, hid⟩ := writeEntries_working id (tagEntries 0 dicts costs)
    (s.write (.deleteChargeTagsOf id))
  have hdef : writePerRowTags s id dicts costs =
      (tagEntries 0 dicts costs).foldl (fun s e => s.write (.focusChargeTag (tagRow s.working id e)))
        (s.write (.deleteChargeTagsOf id)) := by
    rw [writePerRowTags, if_neg (by simpa using hne)]
  have hold : (s.write (.deleteChargeTagsOf id)).working.focusChargeTags.rows =
      s.working.focusChargeTags.rows.filter fun r => !decide (r.focusChargeId = id) := rfl
  rw [hdef, hw]
  refine ⟨?_, ?_, rfl, rfl⟩
  · rw [tagRowsOfCharge]
    simp only [ht, hold, List.filter_append, List.filter_filter]
    rw [List.filter_eq_nil_iff.2 (by intro r _; simp), List.nil_append,
      List.filter_eq_self.2 (by intro r hr; simpa using hid r hr), hn]
  · intro j hj
    rw [tagRowsOfCharge, tagRowsOfCharge]
    simp only [ht, hold, List.filter_append, List.filter_filter]
    have hnew : new.filter (fun r => decide (r.focusChargeId = j)) = [] := by
      rw [List.filter_eq_nil_iff]
      intro r hr he
      exact hj ((of_decide_eq_true he).symm.trans (hid r hr))
    rw [hnew, List.append_nil]
    refine List.filter_congr fun r _ => ?_
    by_cases h : r.focusChargeId = j
    · simp [h, hj]
    · simp [h]

/-! ## Stored aggregates -/

/-- A storage row with the fields of an aggregate, alone under its key, with its tag rows. -/
structure StoredAs (s : Store) (account : Uuid) (agg : AggregatedFocusCharge)
    (r : FocusChargeRow) : Prop where
  mem : r ∈ s.focusCharges
  accountId : r.accountId = account
  key : chargeKey r = agg.key
  canonical : r.serviceCanonical = agg.serviceCanonical
  billedCost : r.billedCost = numeric6 agg.billedCost
  amortizedCost : r.amortizedCost = numeric6 agg.amortizedCost
  currency : r.billingCurrency = agg.billingCurrency
  only : ∀ x ∈ s.focusCharges, x.accountId = account → chargeKey x = agg.key → x = r
  tags : (tagRowsOfCharge s r.id).map tagEntry = tagEntries 0 agg.perRowTagDicts agg.perRowCosts

/-- The rows an update would hit keep their key: the aggregate has a canonical name or the row's
native one. A row never has an empty canonical name. -/
def KeepsKeys (s : Store) (account : Uuid) (agg : AggregatedFocusCharge) : Prop :=
  ∀ r ∈ s.focusCharges, r.accountId = account → r.serviceCanonical ≠ some "" ∧
    (chargeKey r = agg.key → agg.serviceCanonical.isSome ∨ r.service = agg.service)

theorem mem_matching {s : Store} {account : Uuid} {key : BucketKey} {r : FocusChargeRow} :
    r ∈ matching s account key ↔
      r ∈ s.focusCharges ∧ r.accountId = account ∧ chargeKey r = key := by
  rw [matching, List.mem_filter, decide_eq_true_eq, Table.mem_def]

/-- Writing the row `r` of the aggregate with its tags: `r` replaces the row of its own identifier,
every other row and its tags are as before. -/
theorem writeCharge_spec {s : DbSession} {account : Uuid} {agg : AggregatedFocusCharge}
    {r : FocusChargeRow} (hne : agg.perRowTagDicts ≠ []) (hacc : r.accountId = account)
    (hkey : chargeKey r = agg.key) (hcan : r.serviceCanonical = agg.serviceCanonical)
    (hbil : r.billedCost = numeric6 agg.billedCost)
    (ham : r.amortizedCost = numeric6 agg.amortizedCost)
    (hcur : r.billingCurrency = agg.billingCurrency)
    (hsame : ∀ x ∈ s.working.focusCharges, x.accountId = account → chargeKey x = agg.key →
      x.id = r.id)
    (hother : ∀ x ∈ s.working.focusCharges, x.accountId = account → chargeKey x ≠ agg.key →
      x.id ≠ r.id) {s' : DbSession}
    (hs' : s' = writePerRowTags (s.write (.focusCharge r)) r.id agg.perRowTagDicts
      agg.perRowCosts) :
    ∃ r, StoredAs s'.working account agg r ∧
      (∀ x ∈ s'.working.focusCharges, x = r ∨
        (x ∈ s.working.focusCharges ∧ (x.accountId = account → chargeKey x ≠ agg.key))) ∧
      (∀ x ∈ s.working.focusCharges, x.accountId = account → chargeKey x ≠ agg.key →
        x ∈ s'.working.focusCharges ∧
          tagRowsOfCharge s'.working x.id = tagRowsOfCharge s.working x.id) := by
  subst hs'
  obtain ⟨htags, hrest, hcharges, _⟩ :=
    writePerRowTags_spec (s.write (.focusCharge r)) r.id agg.perRowCosts hne
  have hmem : ∀ {x}, x ∈ (writePerRowTags (s.write (.focusCharge r)) r.id agg.perRowTagDicts
      agg.perRowCosts).working.focusCharges ↔
        x = r ∨ (x ∈ s.working.focusCharges ∧ x.id ≠ r.id) := by
    intro x; rw [hcharges]; exact Table.mem_put
  refine ⟨r, ⟨hmem.2 (.inl rfl), hacc, hkey, hcan, hbil, ham, hcur, ?_, htags⟩, ?_, ?_⟩
  · intro x hx hxa hxk
    rcases hmem.1 hx with rfl | ⟨hx, hid⟩
    · rfl
    · exact absurd (hsame x hx hxa hxk) hid
  · intro x hx
    rcases hmem.1 hx with rfl | ⟨hx, hid⟩
    · exact .inl rfl
    · exact .inr ⟨hx, fun hxa hxk => hid (hsame x hx hxa hxk)⟩
  · intro x hx hxa hxk
    have hid := hother x hx hxa hxk
    exact ⟨hmem.2 (.inr ⟨hx, hid⟩), hrest x.id hid⟩

/-- The key a row has by its native name. -/
def nativeKey (r : FocusChargeRow) : BucketKey := (r.service, r.periodStart, r.periodEnd)

/-- An update gives a row the key it had or its native key. -/
theorem chargeKey_updatedCharge {r : FocusChargeRow} {agg : AggregatedFocusCharge}
    (hkey : chargeKey r = agg.key) :
    chargeKey (updatedCharge r agg) = agg.key ∧ agg.serviceCanonical.isSome = true ∨
      chargeKey (updatedCharge r agg) = nativeKey r ∧ agg.serviceCanonical = none := by
  have hperiod : (r.periodStart, r.periodEnd) = (agg.periodStart, agg.periodEnd) :=
    congrArg Prod.snd hkey
  cases hc : agg.serviceCanonical with
  | none =>
    refine .inr ⟨?_, rfl⟩
    simp [chargeKey, updatedCharge, hc, nativeKey]
  | some v =>
    refine .inl ⟨Prod.ext ?_ hperiod, rfl⟩
    simp [chargeKey, updatedCharge, hc, AggregatedFocusCharge.key]

theorem chargeKey_kept {r : FocusChargeRow} {agg : AggregatedFocusCharge}
    (hkey : chargeKey r = agg.key)
    (hkeep : agg.serviceCanonical.isSome = true ∨ r.service = agg.service) :
    chargeKey (updatedCharge r agg) = agg.key := by
  rcases chargeKey_updatedCharge hkey with ⟨hsame, _⟩ | ⟨hnative, hnone⟩
  · exact hsame
  · rcases hkeep with hsome | hservice
    · rw [hnone] at hsome
      cases hsome
    · have hperiod : (r.periodStart, r.periodEnd) = (agg.periodStart, agg.periodEnd) :=
        congrArg Prod.snd hkey
      refine hnative.trans (Prod.ext ?_ hperiod)
      rw [AggregatedFocusCharge.key, hnone]
      exact hservice

/-- What one upsert does: the row of the aggregate's key is there, every other row and its tags
are as before. -/
theorem upsertOne_spec {s s' : DbSession} {account : Uuid} {agg : AggregatedFocusCharge}
    {isNew : Bool} (hk : KeepsKeys s.working account agg) (hne : agg.perRowTagDicts ≠ [])
    (h : upsertOne s account agg = .ok (s', isNew)) :
    ∃ r, StoredAs s'.working account agg r ∧
      (∀ x ∈ s'.working.focusCharges, x = r ∨
        (x ∈ s.working.focusCharges ∧ (x.accountId = account → chargeKey x ≠ agg.key))) ∧
      (∀ x ∈ s.working.focusCharges, x.accountId = account → chargeKey x ≠ agg.key →
        x ∈ s'.working.focusCharges ∧
          tagRowsOfCharge s'.working x.id = tagRowsOfCharge s.working x.id) := by
  simp only [upsertOne] at h
  split at h
  · rename_i hnone
    split at h
    · cases h
      refine writeCharge_spec (r := newCharge s.working account agg) hne rfl rfl rfl rfl rfl rfl
        ?_ ?_ rfl
      · intro x hx hxa hxk
        have : x ∈ matching s.working account agg.key := mem_matching.2 ⟨hx, hxa, hxk⟩
        rw [hnone] at this
        cases this
      · intro x hx _ _
        exact Table.fresh_next hx
    · cases h
  · rename_i existing hone
    cases h
    have hex : existing ∈ matching s.working account agg.key := by
      rw [hone]; exact List.mem_singleton.2 rfl
    obtain ⟨hexm, hexa, hexk⟩ := mem_matching.1 hex
    have hkeep := (hk existing hexm hexa).2 hexk
    refine writeCharge_spec (r := updatedCharge existing agg) hne hexa
      (chargeKey_kept hexk hkeep) rfl rfl rfl rfl ?_ ?_ rfl
    · intro x hx hxa hxk
      have : x ∈ matching s.working account agg.key := mem_matching.2 ⟨hx, hxa, hxk⟩
      rw [hone, List.mem_singleton] at this
      rw [this]; rfl
    · intro x hx _ hxk he
      have : x = existing := Table.eq_of_key hx hexm he
      rw [this] at hxk
      exact hxk hexk
  · cases h

/-- After an ingest every aggregate is stored under its own key. -/
theorem upsertAggregated_stores {account : Uuid} :
    ∀ {aggs : List AggregatedFocusCharge} {s s' : DbSession} {n : Nat × Nat},
      (∀ agg ∈ aggs, KeepsKeys s.working account agg ∧ agg.perRowTagDicts ≠ [] ∧
        agg.serviceCanonical ≠ some "") →
      (aggs.map (·.key)).Nodup → upsertAggregated s account aggs = .ok (s', n) →
      (∀ agg ∈ aggs, ∃ r, StoredAs s'.working account agg r) ∧
        (∀ (agg : AggregatedFocusCharge) r, (∀ a ∈ aggs, a.key ≠ agg.key) →
          StoredAs s.working account agg r → StoredAs s'.working account agg r) ∧
        (∀ x ∈ s'.working.focusCharges, x.accountId = account →
          x ∈ s.working.focusCharges ∨ x.serviceCanonical ≠ some "") := by
  intro aggs
  induction aggs with
  | nil =>
    intro s s' n _ _ h
    cases h
    exact ⟨fun _ hm => (by cases hm), fun _ _ _ hst => hst, fun x hx _ => .inl hx⟩
  | cons agg aggs ih =>
    intro s s' n hall hnd h
    rw [List.forall_mem_cons] at hall
    rw [List.map_cons, List.nodup_cons] at hnd
    simp only [upsertAggregated] at h
    split at h
    · cases h
    · rename_i s₁ isNew hone
      split at h
      · cases h
      · rename_i s₂ ins upd hrest
        obtain ⟨r, hst, hcame, hkept⟩ := upsertOne_spec hall.1.1 hall.1.2.1 hone
        have hs₂ : s₂ = s' := by cases h; rfl
        subst hs₂
        have hne : ∀ a ∈ aggs, a.key ≠ agg.key := by
          intro a ha he
          exact hnd.1 (List.mem_map.2 ⟨a, ha, he⟩)
        have hall₁ : ∀ a ∈ aggs, KeepsKeys s₁.working account a ∧ a.perRowTagDicts ≠ [] ∧
            a.serviceCanonical ≠ some "" := by
          intro a ha
          refine ⟨?_, (hall.2 a ha).2⟩
          intro x hx hxa
          rcases hcame x hx with rfl | ⟨hx, _⟩
          · refine ⟨by rw [hst.canonical]; exact hall.1.2.2, fun hxk => ?_⟩
            exact absurd (hxk.symm.trans hst.key) (hne a ha)
          · exact (hall.2 a ha).1 x hx hxa
        obtain ⟨hstored, hstays, hcanon⟩ := ih hall₁ hnd.2 hrest
        refine ⟨?_, ?_, ?_⟩
        · intro a ha
          rcases List.mem_cons.1 ha with rfl | ha
          · exact ⟨r, hstays a r hne hst⟩
          · exact hstored a ha
        · intro a x hna hx
          rw [List.forall_mem_cons] at hna
          have hkx : chargeKey x ≠ agg.key := fun he => hna.1 (he.symm.trans hx.key)
          obtain ⟨hx₁, htx⟩ := hkept x hx.mem hx.accountId hkx
          refine hstays a x hna.2 { hx with mem := hx₁, only := ?_, tags := ?_ }
          · intro y hy hya hyk
            rcases hcame y hy with rfl | ⟨hy, _⟩
            · exact absurd (hst.key.symm.trans hyk) hna.1
            · exact hx.only y hy hya hyk
          · rw [htx]; exact hx.tags
        · intro x hx hxa
          rcases hcanon x hx hxa with hx | hx
          · rcases hcame x hx with rfl | ⟨hx, _⟩
            · exact .inr (by rw [hst.canonical]; exact hall.1.2.2)
            · exact .inl hx
          · exact .inr hx

end Focus

end Constat
