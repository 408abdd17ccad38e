import Constat.Focus.Conservation

/-!
# Focus.Legacy

Charges stored before migration 0020: their tag rows all have input row index 0 and cost nothing.
The read-back makes one input row of them, with a cost of zero that is there, so the row-count
fallback of `aggregate_by_tag`, which is for charges without per-row costs, is not taken.

`legacy_iff`: such a charge keeps its cost exactly when it has no tag row, or has no cost.
-/

namespace Constat

namespace Focus

/-- The charge that `run_chargeback` reads for one row of the account. -/
def readCharge (order : QueryOrder) (s : Store) (account : Uuid) (accountName : String)
    (r : FocusChargeRow) : FocusCharge :=
  let ids := (order.charges (s.focusCharges.rows.filter fun r => r.accountId = account)).map (·.id)
  focusChargeToPydantic r ((loadPerRowTagsFor (order.tags (tagRowsOf s ids)) ids).get? r.id)
    ((loadPerRowCostsFor (order.costs (tagRowsOf s ids)) ids).get? r.id) accountName

theorem readCharges_eq_map (order : QueryOrder) (s : Store) (account : Uuid)
    (accountName : String) : readCharges order s account accountName =
      (order.charges (s.focusCharges.rows.filter fun r => r.accountId = account)).map
        (readCharge order s account accountName) := rfl

/-- The tag rows of the charge are from before migration 0020. -/
def Legacy (s : Store) (r : FocusChargeRow) : Prop :=
  ∀ x ∈ tagRowsOfCharge s r.id, x.inputRowIndex = 0 ∧ x.billedCost = 0 ∧ x.amortizedCost = 0

/-- All that the charge's tag buckets get. -/
def attributed (tagKey : String) (c : FocusCharge) : Except PyError (Rat × Rat) :=
  (aggregateByTag [c] tagKey).map fun out => totalCost out fun _ => true

theorem indexCount_legacy {s : Store} {r : FocusChargeRow} (h : Legacy s r)
    {rows : List FocusChargeTagRow} (hrows : ∀ x, (x ∈ rows ∧ x.focusChargeId = r.id) ↔
      x ∈ tagRowsOfCharge s r.id) :
    IndexCount rows r.id (if tagRowsOfCharge s r.id = [] then 0 else 1) := by
  intro j
  split
  · rename_i hnone
    simp only [Nat.not_lt_zero, false_iff]
    rintro ⟨x, hx, hid, _⟩
    have hmem := (hrows x).1 ⟨hx, hid⟩
    rw [hnone] at hmem
    cases hmem
  · rename_i hsome
    obtain ⟨x, hx⟩ := List.exists_mem_of_ne_nil _ hsome
    constructor
    · intro hj
      obtain ⟨hmem, hid⟩ := (hrows x).2 hx
      exact ⟨x, hmem, hid, by omega⟩
    · rintro ⟨y, hy, hid, hj⟩
      have hzero := (h y ((hrows y).1 ⟨hy, hid⟩)).1
      omega

/-- A legacy charge is read back with one input row that costs nothing, or with none. -/
theorem readCharge_legacy {s : Store} {account : Uuid} {r : FocusChargeRow} (h : Legacy s r)
    (hr : r ∈ s.focusCharges) (hacc : r.accountId = account) (order : QueryOrder)
    (accountName : String) :
    (tagRowsOfCharge s r.id = [] → (readCharge order s account accountName r).tags = [] ∧
      (readCharge order s account accountName r).perRowCosts = []) ∧
    (tagRowsOfCharge s r.id ≠ [] → (∃ d, (readCharge order s account accountName r).tags = [d]) ∧
      (readCharge order s account accountName r).perRowCosts = [(0, 0)]) := by
  have hid : r.id ∈ (order.charges (s.focusCharges.rows.filter fun r => r.accountId = account)).map
      (·.id) := by
    refine List.mem_map_of_mem ((order.charges_perm _).mem_iff.2 ?_)
    exact List.mem_filter.2 ⟨hr, decide_eq_true hacc⟩
  simp only [readCharge]
  generalize (order.charges (s.focusCharges.rows.filter fun r => r.accountId = account)).map
    (·.id) = ids at hid
  have hmem : ∀ x, (x ∈ tagRowsOf s ids ∧ x.focusChargeId = r.id) ↔
      x ∈ tagRowsOfCharge s r.id := by
    intro x
    simp only [tagRowsOf, tagRowsOfCharge, List.mem_filter, decide_eq_true_eq]
    constructor
    · rintro ⟨⟨hx, _⟩, hxid⟩; exact ⟨hx, hxid⟩
    · rintro ⟨hx, hxid⟩; exact ⟨⟨hx, by rw [hxid]; exact hid⟩, hxid⟩
  have htagRows : ∀ x, (x ∈ order.tags (tagRowsOf s ids) ∧ x.focusChargeId = r.id) ↔
      x ∈ tagRowsOfCharge s r.id := fun x => by rw [(order.tags_perm _).mem_iff]; exact hmem x
  have hcostRows : ∀ x, (x ∈ order.costs (tagRowsOf s ids) ∧ x.focusChargeId = r.id) ↔
      x ∈ tagRowsOfCharge s r.id := fun x => by rw [(order.costs_perm _).mem_iff]; exact hmem x
  obtain ⟨n, hn, htags⟩ := get?_loadPerRowTagsFor (order.tags (tagRowsOf s ids)) hid
  obtain ⟨m, hm, hcosts⟩ := get?_loadPerRowCostsFor (order.costs (tagRowsOf s ids)) hid
  rw [htags, hcosts, hn.unique (indexCount_legacy h htagRows),
    hm.unique (indexCount_legacy h hcostRows)]
  refine ⟨fun hnone => ?_, fun hsome => ?_⟩
  · simp [hnone, focusChargeToPydantic]
  · have hcost : storedCost (order.costs (tagRowsOf s ids)) r.id 0 = (0, 0) := by
      rw [storedCost]
      cases hfind : (order.costs (tagRowsOf s ids)).find?
          fun x => x.focusChargeId = r.id ∧ x.inputRowIndex = 0 with
      | none => rfl
      | some x =>
        have hx : x.focusChargeId = r.id ∧ x.inputRowIndex = 0 := by
          simpa using List.find?_some hfind
        have hlegacy := h x ((hcostRows x).1 ⟨List.mem_of_find?_eq_some hfind, hx.1⟩)
        rw [Option.map_some, Option.getD_some, hlegacy.2.1, hlegacy.2.2]
    simp [hsome, focusChargeToPydantic, hcost, List.range_succ]

/-- The buckets of one charge hold its contributions. -/
theorem attributed_eq {tagKey : String} (htag : tagKey ≠ "") {c : FocusCharge}
    (hc : c.perRowCosts = [] ∨ unparallel c = false) :
    attributed tagKey c = .ok ((contributions tagKey c).map (·.cost)).sum := by
  have hnone : [c].find? (fun c => c.perRowCosts ≠ [] ∧ unparallel c) = none := by
    rcases hc with hc | hc <;> simp [hc]
  have hok : ∃ out, aggregateByTag [c] tagKey = .ok out := by
    rw [aggregateByTag, if_neg htag, hnone]
    exact ⟨_, rfl⟩
  obtain ⟨out, hout⟩ := hok
  rw [attributed, hout, Except.map, totalCost_aggregateByTag hout]
  simp

/-- The buckets of all charges of an account together hold the contributions of each. -/
theorem totalCost_readCharges {tagKey : String} {order : QueryOrder} {s : Store} {account : Uuid}
    {accountName : String} {out : List AggregatedCost}
    (h : aggregateByTag (readCharges order s account accountName) tagKey = .ok out)
    (q : CostKey → Bool) :
    totalCost out q = ((readCharges order s account accountName).map fun c =>
      (((contributions tagKey c).filter fun x => q x.key).map (·.cost)).sum).sum := by
  rw [totalCost_aggregateByTag h, sum_flatMap]

/-- A charge from before migration 0020 has all its cost in its tag buckets exactly when it has no
tag row, or has no cost. -/
theorem legacy_iff {s : Store} {account : Uuid} {r : FocusChargeRow} (h : Legacy s r)
    (hr : r ∈ s.focusCharges) (hacc : r.accountId = account) (order : QueryOrder)
    (accountName : String) {tagKey : String} (htag : tagKey ≠ "") :
    readCharge order s account accountName r ∈ readCharges order s account accountName ∧
      (attributed tagKey (readCharge order s account accountName r) = .ok r.cost ↔
        tagRowsOfCharge s r.id = [] ∨ r.cost = 0) := by
  obtain ⟨hnone, hsome⟩ := readCharge_legacy h hr hacc order accountName
  refine ⟨?_, ?_⟩
  · rw [readCharges_eq_map]
    refine List.mem_map_of_mem ((order.charges_perm _).mem_iff.2 ?_)
    exact List.mem_filter.2 ⟨hr, decide_eq_true hacc⟩
  · by_cases hrows : tagRowsOfCharge s r.id = []
    · obtain ⟨htags, hcosts⟩ := hnone hrows
      rw [attributed_eq htag (.inl hcosts), contributions, if_neg (by simp [hcosts]),
        if_neg (by simp [htags])]
      simp only [hrows, true_or, iff_true]
      simp [Contribution.cost, readCharge, focusChargeToPydantic, FocusChargeRow.cost]
    · obtain ⟨⟨d, htags⟩, hcosts⟩ := hsome hrows
      have hparallel : unparallel (readCharge order s account accountName r) = false := by
        simp [unparallel, htags, hcosts]
      have hzero : (0, 0) = r.cost ↔ r.cost = 0 := eq_comm
      rw [attributed_eq htag (.inr hparallel), contributions, if_pos (by simp [hcosts]), costRows,
        htags, hcosts]
      simp [hrows, Contribution.cost, hzero]

/-! ## One old charge -/

def oldCharge (billed : Rat) : FocusChargeRow where
  id := 0
  accountId := 0
  periodStart := .ofYmd 2026 1 1
  periodEnd := .ofYmd 2026 2 1
  service := "Amazon RDS"
  serviceCanonical := none
  region := none
  pricingCategory := none
  billedCost := billed
  amortizedCost := billed
  resourceId := none
  subAccountId := none
  tags := []
  chargeCount := 5
  billingCurrency := "USD"

def oldTag (id : Nat) (value : String) : FocusChargeTagRow := ⟨id, 0, "App", value, 0, 0, 0⟩

/-- A charge of `billed`, and its tag rows as migration 0020 left them. -/
def migrated (billed : Rat) (values : List String) : Store :=
  (values.zipIdx.map fun p => Write.focusChargeTag (oldTag p.2 p.1)).foldl applyWrite
    (applyWrite .empty (.focusCharge (oldCharge billed)))

/-- A hundred dollars, tagged `web` once and `api` four times: nothing arrives in a bucket. -/
theorem tagged_charge_vanishes : Legacy (migrated 100 ["web", "api", "api", "api", "api"])
      (oldCharge 100) ∧
    attributed "App" (readCharge insertionOrder (migrated 100 ["web", "api", "api", "api", "api"]) 0
      "" (oldCharge 100)) = .ok (0, 0) ∧ (oldCharge 100).cost = (100, 100) := by
  refine ⟨?_, by decide +kernel, rfl⟩
  have hall : (tagRowsOfCharge (migrated 100 ["web", "api", "api", "api", "api"]) 0).all (fun x =>
      x.inputRowIndex = 0 ∧ x.billedCost = 0 ∧ x.amortizedCost = 0) = true := by decide +kernel
  intro x hx
  exact of_decide_eq_true (List.all_eq_true.1 hall x hx)

theorem untagged_charge_kept : attributed "App" (readCharge insertionOrder (migrated 100 []) 0 ""
    (oldCharge 100)) = .ok (oldCharge 100).cost :=
  (legacy_iff (s := migrated 100 []) (by intro x hx; cases hx)
    (List.mem_singleton_self (oldCharge 100)) rfl insertionOrder "" (by decide)).2.2 (.inl rfl)

end Focus

end Constat
