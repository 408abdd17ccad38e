import Mathlib.Algebra.BigOperators.Group.List.Lemmas
import Constat.Focus.ReadBack

/-!
# Focus.Conservation

Tag chargeback through storage: raw rows are aggregated, upserted, read back and split by tag.
`Conserves` says that the buckets of every (service, period, currency) add up to the stored cost
and that each source row's cost is in the bucket of its own tag value.

An input row with an empty tag dict has no tag row, so nothing is read back for it once another
row of its bucket is tagged. `conserves_iff` is the exact condition: in a bucket with a tagged
row, the untagged rows cost nothing.
-/

namespace Constat

def FocusCharge.cost (c : FocusCharge) : Rat × Rat := (c.billedCost, c.amortizedCost)

def FocusChargeRow.cost (r : FocusChargeRow) : Rat × Rat := (r.billedCost, r.amortizedCost)

namespace Focus

theorem sum_cost (l : List FocusCharge) :
    (l.map (·.cost)).sum = ((l.map (·.billedCost)).sum, (l.map (·.amortizedCost)).sum) := by
  induction l with
  | nil => rfl
  | cons c l ih => rw [List.map_cons, List.sum_cons, ih]; rfl

theorem sum_cost_filter (l : List FocusCharge) (p : FocusCharge → Bool) :
    ((l.filter p).map (·.cost)).sum = (l.map fun c => if p c then c.cost else 0).sum := by
  induction l with
  | nil => rfl
  | cons c l ih =>
    rw [List.filter_cons, List.map_cons, List.sum_cons, ← ih]
    cases p c with
    | true => rfl
    | false => exact (zero_add _).symm

/-- The tag dict of a source row. -/
def rowTags (c : FocusCharge) : TagDict := c.tags.headD .empty

def untaggedRow (c : FocusCharge) : Bool := (rowTags c).items.isEmpty

def ownValue (tagKey : String) (c : FocusCharge) : String := valueOf tagKey (rowTags c)

/-- The output keys of the (service key, period, currency) of a source row. -/
def ofBucket (account : Uuid) (c : FocusCharge) (k : CostKey) : Bool :=
  k.accountId = Uuid.text account ∧ k.service = serviceKey c ∧ k.periodStart = c.periodStart ∧
    k.periodEnd = c.periodEnd ∧ k.billingCurrency = c.billingCurrency

/-- Chargeback conserves the cost of `rows`. -/
structure Conserves (rows : List FocusCharge) (s : Store) (account : Uuid) (tagKey : String)
    (out : List AggregatedCost) : Prop where
  stored : ∀ c ∈ rows, ∃ r ∈ s.focusCharges, r.accountId = account ∧ chargeKey r = bucketKey c ∧
    r.billingCurrency = c.billingCurrency ∧ totalCost out (ofBucket account c) = r.cost ∧
    ∀ x ∈ s.focusCharges, x.accountId = account → chargeKey x = bucketKey c → x = r
  own : ∀ c ∈ rows, ∀ v,
    totalCost out (fun k => ofBucket account c k && k.tagValue = v) =
      (((group rows (bucketKey c)).filter fun x => ownValue tagKey x = v).map (·.cost)).sum

/-- In a bucket with a tagged row, the rows without tags cost nothing. -/
def UntaggedFree (rows : List FocusCharge) : Prop :=
  ∀ c ∈ rows, untaggedRow c = false →
    (((group rows (bucketKey c)).filter untaggedRow).map (·.cost)).sum = 0

/-! ## What is read back for one input row -/

theorem sum_range_getD {M : Type} [AddCommMonoid M] (l : List M) (n : Nat)
    (h : ∀ j, n ≤ j → l.getD j 0 = 0) :
    ((List.range n).map fun j => l.getD j 0).sum = l.sum := by
  induction l generalizing n with
  | nil => simp
  | cons x l ih =>
    have htail : ∀ n, (∀ j, n + 1 ≤ j → (x :: l).getD j 0 = 0) → ∀ j, n ≤ j → l.getD j 0 = 0 :=
      fun n hn j hj => hn (j + 1) (by omega)
    cases n with
    | zero =>
      have hx : x = 0 := h 0 (Nat.zero_le 0)
      have hl := ih 0 fun j _ => h (j + 1) (Nat.zero_le _)
      rw [List.range_zero, List.map_nil, List.sum_nil] at hl ⊢
      rw [List.sum_cons, ← hl, hx, add_zero]
    | succ n =>
      rw [List.range_succ_eq_map, List.map_cons, List.sum_cons, List.map_map, List.sum_cons,
        ← ih n (htail n h)]
      rfl

/-- The tag rows of charge `id` are those written for `dicts` and `costs`. -/
def WrittenAs (rows : List FocusChargeTagRow) (id : Nat) (dicts : List TagDict)
    (costs : List (Rat × Rat)) : Prop :=
  ∀ e, (∃ r ∈ rows, r.focusChargeId = id ∧ tagEntry r = e) ↔ e ∈ tagEntries 0 dicts costs

section

variable {rows : List FocusChargeTagRow} {id : Nat} {dicts : List TagDict}
  {costs : List (Rat × Rat)}

theorem WrittenAs.perm {rows' : List FocusChargeTagRow} (h : WrittenAs rows id dicts costs)
    (hp : List.Perm rows' rows) : WrittenAs rows' id dicts costs := by
  intro e
  rw [← h e]
  constructor
  · rintro ⟨r, hr, hrid⟩; exact ⟨r, hp.mem_iff.1 hr, hrid⟩
  · rintro ⟨r, hr, hrid⟩; exact ⟨r, hp.mem_iff.2 hr, hrid⟩

theorem WrittenAs.row (h : WrittenAs rows id dicts costs) {r : FocusChargeTagRow} (hr : r ∈ rows)
    (hid : r.focusChargeId = id) :
    ∃ d, dicts[r.inputRowIndex]? = some d ∧ d.get? r.key = some r.value ∧
      r.billedCost = numeric6 (costs.getD r.inputRowIndex (0, 0)).1 ∧
      r.amortizedCost = numeric6 (costs.getD r.inputRowIndex (0, 0)).2 := by
  obtain ⟨j, d, hd, hkv, hj, hb, ha⟩ := mem_tagEntries.1 ((h (tagEntry r)).1 ⟨r, hr, hid, rfl⟩)
  rw [Nat.zero_add] at hj
  have hj : r.inputRowIndex = j := hj
  subst hj
  exact ⟨d, hd, Dict.get?_eq_some.2 hkv, hb, ha⟩

/-- An entry of an input row's dict has its tag row. -/
theorem WrittenAs.exists_row (h : WrittenAs rows id dicts costs) {j : Nat} {d : TagDict}
    (hd : dicts[j]? = some d) {k v : String} (hkv : d.get? k = some v) :
    ∃ r ∈ rows, r.focusChargeId = id ∧ r.inputRowIndex = j ∧ r.key = k ∧ r.value = v := by
  obtain ⟨r, hr, hrid, he⟩ := (h ⟨k, v, j, numeric6 (costs.getD j (0, 0)).1,
    numeric6 (costs.getD j (0, 0)).2⟩).2
    (mem_tagEntries.2 ⟨j, d, hd, Dict.get?_eq_some.1 hkv, by rw [Nat.zero_add], rfl, rfl⟩)
  injection he with hk hv hj
  exact ⟨r, hr, hrid, hj, hk, hv⟩

/-- Every dict comes back key by key; an index past the last input row is an empty dict. -/
theorem WrittenAs.tags (h : WrittenAs rows id dicts costs) (j : Nat) (k : String) :
    (((groupedTags rows).get? (id, j)).getD .empty).get? k = (dicts.getD j .empty).get? k := by
  have hvalue : ∀ r ∈ rows, r.focusChargeId = id → r.inputRowIndex = j →
      (dicts.getD j .empty).get? r.key = some r.value := by
    intro r hr hrid hj
    obtain ⟨d, hd, hv, _⟩ := h.row hr hrid
    subst hj
    rw [List.getD_eq_getElem?_getD, hd, Option.getD_some, hv]
  rw [get?_groupedTags]
  · cases hf : rows.find? fun r => r.focusChargeId = id ∧ r.inputRowIndex = j ∧ r.key = k with
    | some r =>
      have hfound := List.find?_some hf
      rw [decide_eq_true_eq] at hfound
      obtain ⟨hrid, hj, hk⟩ := hfound
      rw [Option.map_some, ← hk, hvalue r (List.mem_of_find?_eq_some hf) hrid hj]
    | none =>
      rw [Option.map_none]
      cases hg : (dicts.getD j .empty).get? k with
      | none => rfl
      | some v =>
        rw [List.getD_eq_getElem?_getD] at hg
        cases hd : dicts[j]? with
        | none => rw [hd, Option.getD_none, Dict.get?_empty] at hg; cases hg
        | some d =>
          rw [hd, Option.getD_some] at hg
          obtain ⟨r, hr, hrest⟩ := h.exists_row hd hg
          have := List.find?_eq_none.1 hf r hr
          exact absurd (decide_eq_true ⟨hrest.1, hrest.2.1, hrest.2.2.1⟩) this
  · intro r hr r' hr' hid hid' hj hj' hk
    have h₁ := hvalue r hr hid hj
    rw [hk, hvalue r' hr' hid' hj'] at h₁
    exact (Option.some.inj h₁).symm

/-- The cost of a tagged input row comes back, that of an untagged one does not. -/
theorem WrittenAs.cost (h : WrittenAs rows id dicts costs) (j : Nat) :
    storedCost rows id j = if (dicts.getD j .empty).items = [] then (0, 0)
      else (numeric6 (costs.getD j (0, 0)).1, numeric6 (costs.getD j (0, 0)).2) := by
  rw [storedCost]
  cases hf : rows.find? fun r => r.focusChargeId = id ∧ r.inputRowIndex = j with
  | some r =>
    have hfound := List.find?_some hf
    rw [decide_eq_true_eq] at hfound
    obtain ⟨hrid, hj⟩ := hfound
    obtain ⟨d, hd, hv, hb, ha⟩ := h.row (List.mem_of_find?_eq_some hf) hrid
    subst hj
    rw [List.getD_eq_getElem?_getD, hd, Option.getD_some, Option.map_some, Option.getD_some, hb,
      ha, if_neg]
    intro hnil
    have hmem := Dict.get?_eq_some.1 hv
    rw [hnil] at hmem
    cases hmem
  | none =>
    rw [Option.map_none, Option.getD_none, if_pos]
    cases hd : dicts[j]? with
    | none => rw [List.getD_eq_getElem?_getD, hd]; rfl
    | some d =>
      rw [List.getD_eq_getElem?_getD, hd, Option.getD_some]
      cases hi : d.items with
      | nil => rfl
      | cons p ps =>
        obtain ⟨r, hr, hrid, hj, _⟩ := h.exists_row hd
          (Dict.get?_eq_some.2 (by rw [hi]; exact List.mem_cons_self) : d.get? p.1 = some p.2)
        exact absurd (decide_eq_true ⟨hrid, hj⟩) (List.find?_eq_none.1 hf r hr)

/-- Input row `j` comes back exactly when it or a later one is tagged. -/
theorem WrittenAs.lt_count (h : WrittenAs rows id dicts costs) {n : Nat}
    (hn : IndexCount rows id n) (j : Nat) :
    j < n ↔ ∃ i, j ≤ i ∧ (dicts.getD i .empty).items ≠ [] := by
  rw [hn j]
  constructor
  · rintro ⟨r, hr, hrid, hj⟩
    obtain ⟨d, hd, hv, _⟩ := h.row hr hrid
    refine ⟨r.inputRowIndex, hj, ?_⟩
    rw [List.getD_eq_getElem?_getD, hd, Option.getD_some]
    intro hnil
    have hmem := Dict.get?_eq_some.1 hv
    rw [hnil] at hmem
    cases hmem
  · rintro ⟨i, hji, hne⟩
    cases hd : dicts[i]? with
    | none => rw [List.getD_eq_getElem?_getD, hd] at hne; exact absurd rfl hne
    | some d =>
      rw [List.getD_eq_getElem?_getD, hd, Option.getD_some] at hne
      obtain ⟨p, hp⟩ := List.exists_mem_of_ne_nil _ hne
      obtain ⟨r, hr, hrid, hj, _⟩ := h.exists_row hd (Dict.get?_eq_some.2 hp)
      exact ⟨r, hr, hrid, by omega⟩

end

/-! ## What one stored bucket contributes -/

/-- What of a source row's cost comes back. -/
def keptCost (g : List FocusCharge) (c : FocusCharge) : Rat × Rat :=
  if untaggedRow c && g.any fun x => !untaggedRow x then 0 else c.cost

/-- What comes back of the rows whose own value `p` selects. -/
def keptTotal (tagKey : String) (g : List FocusCharge) (p : String → Bool) : Rat × Rat :=
  (g.map fun c => if p (ownValue tagKey c) then keptCost g c else 0).sum

/-- The rows of the group, less the untagged ones when another row is tagged. -/
theorem keptTotal_add (tagKey : String) (g : List FocusCharge) (p : String → Bool) :
    keptTotal tagKey g p +
        (if p untagged && g.any fun x => !untaggedRow x then
          ((g.filter untaggedRow).map (·.cost)).sum else 0) =
      ((g.filter fun x => p (ownValue tagKey x)).map (·.cost)).sum := by
  have hown : ∀ c, untaggedRow c = true → ownValue tagKey c = untagged := by
    intro c hc
    have hnil : (rowTags c).items = [] := List.isEmpty_iff.1 hc
    rw [ownValue, valueOf, Dict.get?, hnil]
    rfl
  rw [sum_cost_filter, sum_cost_filter, keptTotal]
  cases hany : g.any fun x => !untaggedRow x with
  | false =>
    rw [Bool.and_false, if_neg Bool.false_ne_true, add_zero]
    refine congrArg List.sum (List.map_congr_left fun c _ => ?_)
    rw [keptCost, hany, Bool.and_false, if_neg Bool.false_ne_true]
  | true =>
    rw [Bool.and_true]
    have hcost : ∀ c, keptCost g c = if untaggedRow c then 0 else c.cost := by
      intro c; rw [keptCost, hany, Bool.and_true]
    simp only [hcost]
    cases hp : p untagged with
    | true =>
      rw [if_pos rfl, ← List.sum_map_add]
      refine congrArg List.sum (List.map_congr_left fun c _ => ?_)
      cases hu : untaggedRow c with
      | true => rw [hown c hu, hp]; simp
      | false => simp
    | false =>
      rw [if_neg Bool.false_ne_true, add_zero]
      refine congrArg List.sum (List.map_congr_left fun c _ => ?_)
      cases hu : untaggedRow c with
      | true => rw [hown c hu, hp]; simp
      | false => simp

/-- The contributions of a charge whose lists are what the loaders return. -/
theorem sum_costRows (tagKey : String) (c : FocusCharge) {n : Nat} {tags : Nat → TagDict}
    {costs : Nat → Rat × Rat} (htags : c.tags = (List.range n).map tags)
    (hcosts : c.perRowCosts = (List.range n).map costs) (q : CostKey → Bool) :
    (((costRows tagKey c).filter fun x => q x.key).map (·.cost)).sum =
      ((List.range n).map fun j =>
        if q (costKey c (serviceKey c) (valueOf tagKey (tags j))) then costs j else 0).sum := by
  rw [costRows, htags, hcosts]
  induction List.range n with
  | nil => rfl
  | cons j l ih =>
    rw [List.map_cons, List.map_cons, List.zip_cons_cons, List.map_cons, List.filter_cons,
      List.map_cons, List.sum_cons, ← ih]
    simp only
    cases q (costKey c (serviceKey c) (valueOf tagKey (tags j))) with
    | true => rfl
    | false => exact (zero_add _).symm

/-- A charge as it is read back, with the dicts and costs of its first `n` input rows. -/
def readBack (r : FocusChargeRow) (rows rows' : List FocusChargeTagRow) (n : Nat)
    (accountName : String) : FocusCharge :=
  focusChargeToPydantic r
    (some ((List.range n).map fun j => ((groupedTags rows).get? (r.id, j)).getD .empty))
    (some ((List.range n).map (storedCost rows' r.id))) accountName

theorem keptTotal_of_untagged {tagKey : String} {g : List FocusCharge}
    (hg : ∀ c ∈ g, untaggedRow c = true) (p : String → Bool) :
    keptTotal tagKey g p = if p untagged then (g.map (·.cost)).sum else 0 := by
  have hany : (g.any fun x => !untaggedRow x) = false := by
    rw [List.any_eq_false]
    intro c hc
    rw [hg c hc]
    exact Bool.false_ne_true
  rw [keptTotal]
  have hterm : ∀ c ∈ g, (if p (ownValue tagKey c) then keptCost g c else 0) =
      if p untagged then c.cost else 0 := by
    intro c hc
    have hnil : (rowTags c).items = [] := List.isEmpty_iff.1 (hg c hc)
    have hown : ownValue tagKey c = untagged := by
      rw [ownValue, valueOf, Dict.get?, hnil]; rfl
    rw [hown, keptCost, hany, Bool.and_false, if_neg Bool.false_ne_true]
  rw [List.map_congr_left hterm]
  cases p untagged with
  | true => rfl
  | false => exact List.sum_eq_zero (by simp)

theorem rowTags_ne_nil_iff (g : List FocusCharge) (i : Nat) :
    ((g.map rowTags).getD i .empty).items ≠ [] ↔ ∃ c, g[i]? = some c ∧ untaggedRow c = false := by
  rw [List.getD_eq_getElem?_getD, List.getElem?_map]
  cases g[i]? with
  | none => exact ⟨fun h => absurd rfl h, fun ⟨_, h, _⟩ => by cases h⟩
  | some c =>
    rw [Option.map_some, Option.getD_some]
    constructor
    · intro h
      refine ⟨c, rfl, ?_⟩
      rw [untaggedRow, ← Bool.not_eq_true, List.isEmpty_iff]
      exact h
    · rintro ⟨c', hc', hu⟩ hnil
      cases hc'
      rw [untaggedRow, hnil] at hu
      cases hu

/-- The rows past the last one with a tag have none. -/
theorem untagged_past {rows : List FocusChargeTagRow} {id : Uuid} {n j : Nat} {g : List FocusCharge}
    (hrows : WrittenAs rows id (g.map rowTags) (g.map (·.cost))) (hn : IndexCount rows id n)
    (hj : n ≤ j) {c : FocusCharge} (hc : g[j]? = some c) : untaggedRow c = true := by
  cases hu : untaggedRow c with
  | true => rfl
  | false =>
    have := (hrows.lt_count hn j).2 ⟨j, Nat.le_refl j, (rowTags_ne_nil_iff g j).2 ⟨c, hc, hu⟩⟩
    omega

theorem sum_contributions {r : FocusChargeRow} {rows rows' : List FocusChargeTagRow} {n : Nat}
    {g : List FocusCharge} (hrows : WrittenAs rows r.id (g.map rowTags) (g.map (·.cost)))
    (hrows' : WrittenAs rows' r.id (g.map rowTags) (g.map (·.cost)))
    (hn : IndexCount rows r.id n)
    (hsix : ∀ c ∈ g, SixDecimals c.billedCost ∧ SixDecimals c.amortizedCost)
    (hcost : r.cost = (g.map (·.cost)).sum) (tagKey accountName : String) (q : CostKey → Bool)
    (p : String → Bool)
    (hq : ∀ v, q (costKey (readBack r rows rows' n accountName)
      (serviceKey (readBack r rows rows' n accountName)) v) = p v) :
    (((contributions tagKey (readBack r rows rows' n accountName)).filter fun x => q x.key).map
      (·.cost)).sum = keptTotal tagKey g p := by
  have htags : (readBack r rows rows' n accountName).tags =
      (List.range n).map fun j => ((groupedTags rows).get? (r.id, j)).getD .empty := rfl
  have hcosts : (readBack r rows rows' n accountName).perRowCosts =
      (List.range n).map (storedCost rows' r.id) := rfl
  cases n with
  | zero =>
    have hg : ∀ c ∈ g, untaggedRow c = true := by
      intro c hc
      obtain ⟨i, hi⟩ := List.mem_iff_getElem?.1 hc
      exact untagged_past hrows hn (Nat.zero_le i) hi
    rw [keptTotal_of_untagged hg, ← hcost, contributions, if_neg (by rw [hcosts]; simp),
      if_neg (by rw [htags]; simp), List.filter_cons]
    simp only [hq]
    cases p untagged with
    | true => exact add_zero _
    | false => rfl
  | succ m =>
    have hany : (g.any fun x => !untaggedRow x) = true := by
      obtain ⟨i, _, hi⟩ := (hrows.lt_count hn 0).1 (Nat.succ_pos m)
      obtain ⟨c, hc, hu⟩ := (rowTags_ne_nil_iff g i).1 hi
      rw [List.any_eq_true]
      exact ⟨c, List.mem_of_getElem? hc, by rw [hu]; rfl⟩
    rw [contributions, if_pos (by rw [hcosts]; simp), sum_costRows tagKey _ htags hcosts,
      keptTotal]
    rw [← sum_range_getD (g.map fun c => if p (ownValue tagKey c) then keptCost g c else 0) (m + 1)]
    · refine congrArg List.sum (List.map_congr_left fun j _ => ?_)
      have hvalue : valueOf tagKey (((groupedTags rows).get? (r.id, j)).getD .empty) =
          valueOf tagKey ((g.map rowTags).getD j .empty) := by
        rw [valueOf, valueOf, hrows.tags]
      rw [hq, hvalue, hrows'.cost]
      cases hg : g[j]? with
      | none => simp [List.getD_eq_getElem?_getD, hg, Dict.empty]
      | some c =>
        have hmem : c ∈ g := List.mem_of_getElem? hg
        simp only [List.getD_eq_getElem?_getD, List.getElem?_map, hg, Option.map_some,
          Option.getD_some]
        have hc : (numeric6 c.cost.1, numeric6 c.cost.2) = c.cost :=
          Prod.ext (numeric6_of_sixDecimals (hsix c hmem).1)
            (numeric6_of_sixDecimals (hsix c hmem).2)
        rw [hc, ← ownValue, keptCost, hany, Bool.and_true, untaggedRow]
        cases hi : (rowTags c).items with
        | nil => rfl
        | cons x l => rfl
    · intro j hj
      rw [List.getD_eq_getElem?_getD, List.getElem?_map]
      cases hg : g[j]? with
      | none => rfl
      | some c =>
        rw [Option.map_some, Option.getD_some, keptCost, hany, Bool.and_true,
          untagged_past hrows hn hj hg]
        cases p (ownValue tagKey c) <;> rfl

/-! ## The whole read-back -/

theorem sum_flatMap {α β M : Type} [AddCommMonoid M] (f : α → List β) (q : β → Bool) (g : β → M)
    (l : List α) : (((l.flatMap f).filter q).map g).sum =
      (l.map fun x => (((f x).filter q).map g).sum).sum := by
  induction l with
  | nil => rfl
  | cons x l ih =>
    rw [List.flatMap_cons, List.filter_append, List.map_append, List.sum_append, ih,
      List.map_cons, List.sum_cons]

/-- Every charge of the account is read back with equally long lists. -/
theorem readCharges_eq (order : QueryOrder) (s : Store) (account : Uuid) (accountName : String) :
    ∃ rows : List FocusChargeRow, ∃ tags tags' : List FocusChargeTagRow,
      ∃ count : FocusChargeRow → Nat,
      readCharges order s account accountName =
        rows.map (fun r => readBack r tags tags' (count r) accountName) ∧
      List.Perm rows (s.focusCharges.rows.filter fun r => r.accountId = account) ∧
      (∀ r ∈ rows, IndexCount tags r.id (count r)) ∧ List.Perm tags' tags ∧
      ∀ r ∈ rows, ∀ x, (x ∈ tags ∧ x.focusChargeId = r.id) ↔ x ∈ tagRowsOfCharge s r.id := by
  have hids : ∀ r ∈ order.charges (s.focusCharges.rows.filter fun r => r.accountId = account),
      r.id ∈ (order.charges (s.focusCharges.rows.filter fun r => r.accountId = account)).map
        (·.id) := fun r hr => List.mem_map.2 ⟨r, hr, rfl⟩
  generalize hrows : order.charges (s.focusCharges.rows.filter fun r => r.accountId = account) =
    rows at hids
  have hperm : List.Perm (order.costs (tagRowsOf s (rows.map (·.id))))
      (order.tags (tagRowsOf s (rows.map (·.id)))) :=
    (order.costs_perm _).trans (order.tags_perm _).symm
  have hlists : ∀ r ∈ rows, ∃ n, IndexCount (order.tags (tagRowsOf s (rows.map (·.id)))) r.id n ∧
      focusChargeToPydantic r
        ((loadPerRowTagsFor (order.tags (tagRowsOf s (rows.map (·.id)))) (rows.map (·.id))).get?
          r.id)
        ((loadPerRowCostsFor (order.costs (tagRowsOf s (rows.map (·.id)))) (rows.map (·.id))).get?
          r.id) accountName =
        readBack r (order.tags (tagRowsOf s (rows.map (·.id))))
          (order.costs (tagRowsOf s (rows.map (·.id)))) n accountName := by
    intro r hr
    obtain ⟨n, hn, htags⟩ := get?_loadPerRowTagsFor
      (order.tags (tagRowsOf s (rows.map (·.id)))) (hids r hr)
    obtain ⟨n', hn', hcosts⟩ := get?_loadPerRowCostsFor
      (order.costs (tagRowsOf s (rows.map (·.id)))) (hids r hr)
    have hcount : IndexCount (order.tags (tagRowsOf s (rows.map (·.id)))) r.id n' := by
      intro j
      rw [hn' j]
      constructor
      · rintro ⟨x, hx, hrest⟩; exact ⟨x, hperm.mem_iff.1 hx, hrest⟩
      · rintro ⟨x, hx, hrest⟩; exact ⟨x, hperm.mem_iff.2 hx, hrest⟩
    have := hcount.unique hn
    subst this
    exact ⟨n', hn, by rw [htags, hcosts]; rfl⟩
  choose! count hcount using hlists
  refine ⟨rows, order.tags (tagRowsOf s (rows.map (·.id))),
    order.costs (tagRowsOf s (rows.map (·.id))), count, ?_, ?_, fun r hr => (hcount r hr).1,
    hperm, ?_⟩
  · rw [readCharges, hrows]
    exact List.map_congr_left fun r hr => (hcount r hr).2
  · rw [← hrows]; exact order.charges_perm _
  · intro r hr x
    rw [(order.tags_perm _).mem_iff, tagRowsOf, tagRowsOfCharge, List.mem_filter, List.mem_filter,
      decide_eq_true_eq, decide_eq_true_eq]
    constructor
    · rintro ⟨⟨hx, _⟩, hid⟩; exact ⟨hx, hid⟩
    · rintro ⟨hx, hid⟩; exact ⟨⟨hx, by rw [hid]; exact hids r hr⟩, hid⟩

/-- A charge that is read back contributes under its own service key only. -/
theorem key_of_contributions {r : FocusChargeRow} {rows rows' : List FocusChargeTagRow} {n : Nat}
    {tagKey accountName : String} {x : Contribution}
    (hx : x ∈ contributions tagKey (readBack r rows rows' n accountName)) :
    ∃ v, x.key = costKey (readBack r rows rows' n accountName)
      (serviceKey (readBack r rows rows' n accountName)) v := by
  rw [contributions] at hx
  split at hx
  · obtain ⟨p, _, rfl⟩ := List.mem_map.1 hx
    exact ⟨_, rfl⟩
  · rename_i hcosts
    have hn : n = 0 := by
      cases n with
      | zero => rfl
      | succ n => exact absurd (by simp [readBack, focusChargeToPydantic]) hcosts
    subst hn
    rw [if_neg (by simp [readBack, focusChargeToPydantic])] at hx
    rw [List.mem_singleton] at hx
    subst hx
    exact ⟨untagged, rfl⟩

theorem totalCost_bucket {s : Store} {account : Uuid} {order : QueryOrder}
    {tagKey accountName : String} {out : List AggregatedCost} {r : FocusChargeRow}
    {g : List FocusCharge} {c : FocusCharge}
    (hout : aggregateByTag (readCharges order s account accountName) tagKey = .ok out)
    (hr : r ∈ s.focusCharges) (hacc : r.accountId = account) (hkey : chargeKey r = bucketKey c)
    (hcur : r.billingCurrency = c.billingCurrency)
    (hcanon : ∀ x ∈ s.focusCharges, x.accountId = account → x.serviceCanonical ≠ some "")
    (honly : ∀ x ∈ s.focusCharges, x.accountId = account → chargeKey x = bucketKey c → x = r)
    (htags : (tagRowsOfCharge s r.id).map tagEntry =
      tagEntries 0 (g.map rowTags) (g.map (·.cost)))
    (hsix : ∀ c ∈ g, SixDecimals c.billedCost ∧ SixDecimals c.amortizedCost)
    (hcost : r.cost = (g.map (·.cost)).sum) (p : String → Bool) :
    totalCost out (fun k => ofBucket account c k && p k.tagValue) = keptTotal tagKey g p := by
  obtain ⟨rows, tags, tags', count, hread, hperm, hcount, htperm, hmem⟩ :=
    readCharges_eq order s account accountName
  have hrowsMem : ∀ x, x ∈ rows ↔ x ∈ s.focusCharges ∧ x.accountId = account := by
    intro x
    rw [hperm.mem_iff, List.mem_filter, decide_eq_true_eq, Table.mem_def]
  have hrr : r ∈ rows := (hrowsMem r).2 ⟨hr, hacc⟩
  have hservice : ∀ x ∈ rows,
      serviceKey (readBack x tags tags' (count x) accountName) = (chargeKey x).1 := by
    intro x hx
    have hne := hcanon x ((hrowsMem x).1 hx).1 ((hrowsMem x).1 hx).2
    have heq : serviceKey (readBack x tags tags' (count x) accountName) =
      orStr x.serviceCanonical x.service := rfl
    rw [heq, orStr, chargeKey]
    cases hc : x.serviceCanonical with
    | none => rfl
    | some v => rw [truthy_of_ne fun he => hne (by rw [hc, he])]
  have hwritten : WrittenAs tags r.id (g.map rowTags) (g.map (·.cost)) := by
    intro e
    rw [← htags, List.mem_map]
    constructor
    · rintro ⟨x, hx, hid, he⟩; exact ⟨x, (hmem r hrr x).1 ⟨hx, hid⟩, he⟩
    · rintro ⟨x, hx, he⟩
      obtain ⟨hx, hid⟩ := (hmem r hrr x).2 hx
      exact ⟨x, hx, hid, he⟩
  rw [totalCost_aggregateByTag hout, hread, sum_flatMap, List.map_map]
  have hnodup : rows.Nodup :=
    hperm.nodup_iff.2 ((Table.nodup_filter _ _).of_map _)
  rw [List.sum_map_eq_nsmul_single r]
  · rw [List.count_eq_one_of_mem hnodup hrr, one_nsmul]
    rw [Function.comp_apply]
    refine sum_contributions hwritten (hwritten.perm htperm) (hcount r hrr) hsix hcost tagKey
      accountName (fun k => ofBucket account c k && p k.tagValue) p ?_
    intro v
    have hbucket : ofBucket account c (costKey (readBack r tags tags' (count r) accountName)
        (serviceKey (readBack r tags tags' (count r) accountName)) v) = true := by
      rw [hservice r hrr, hkey, ofBucket]
      refine decide_eq_true ⟨congrArg Uuid.text hacc, rfl, ?_, ?_, hcur⟩
      · exact congrArg (fun k => k.2.1) hkey
      · exact congrArg (fun k => k.2.2) hkey
    simp only [hbucket, Bool.true_and]
    rfl
  · intro x hne hx
    rw [Function.comp_apply, List.filter_eq_nil_iff.2, List.map_nil, List.sum_nil]
    intro y hy hq
    obtain ⟨v, hv⟩ := key_of_contributions hy
    rw [Bool.and_eq_true] at hq
    have hb := hq.1
    rw [hv, hservice x hx, ofBucket, decide_eq_true_eq] at hb
    obtain ⟨_, hserv, hps, hpe, _⟩ := hb
    have hxm := (hrowsMem x).1 hx
    exact hne (honly x hxm.1 hxm.2 (Prod.ext hserv (Prod.ext hps hpe)))

/-- A nonempty tag key is never refused on charges that were read back. -/
theorem aggregateByTag_readCharges {tagKey : String} (htag : tagKey ≠ "") (order : QueryOrder)
    (s : Store) (account : Uuid) (accountName : String) :
    ∃ out, aggregateByTag (readCharges order s account accountName) tagKey = .ok out := by
  obtain ⟨rows, tags, tags', count, hread, _⟩ := readCharges_eq order s account accountName
  have hnone : (readCharges order s account accountName).find?
      (fun c => c.perRowCosts ≠ [] ∧ unparallel c) = none := by
    rw [hread, List.find?_eq_none]
    intro c hc
    obtain ⟨r, _, rfl⟩ := List.mem_map.1 hc
    simp [unparallel, readBack, focusChargeToPydantic]
  rw [aggregateByTag, if_neg htag, hnone]
  exact ⟨_, rfl⟩

theorem flatMap_single {β : Type} {f : FocusCharge → List β} {h : FocusCharge → β}
    {l : List FocusCharge} (hl : ∀ x ∈ l, f x = [h x]) : l.flatMap f = l.map h := by
  induction l with
  | nil => rfl
  | cons x l ih =>
    rw [List.forall_mem_cons] at hl
    rw [List.flatMap_cons, hl.1, ih hl.2]
    rfl

theorem sixDecimals_total {f : FocusCharge → Rat} {l : List FocusCharge}
    (hl : ∀ x ∈ l, SixDecimals (f x)) : SixDecimals (l.map f).sum := by
  refine sixDecimals_sum fun q hq => ?_
  obtain ⟨x, hx, rfl⟩ := List.mem_map.1 hq
  exact hl x hx

/-- An aggregate of the loader's rows has a tag dict for each. -/
theorem perRowTagDicts_ne_nil {rows : List FocusCharge} {aggs : List AggregatedFocusCharge}
    (hrows : ∀ c ∈ rows, LoaderRow c) (h : aggregateForStorage rows = .ok aggs)
    {agg : AggregatedFocusCharge} (hm : agg ∈ aggs) : agg.perRowTagDicts ≠ [] := by
  intro hnil
  obtain ⟨hkeys, hof⟩ := aggregateForStorage_mem h
  have hk : agg.key ∈ (bucketRows rows).keys := hkeys ▸ List.mem_map_of_mem hm
  obtain ⟨x, hx, hxk⟩ := mem_keys_bucketRows.1 hk
  obtain ⟨d, hd, _⟩ := hrows x hx
  rw [(hof agg hm).perRowTagDicts, List.flatMap_eq_nil_iff] at hnil
  have htags := hnil x (mem_group.2 ⟨hx, hxk⟩)
  rw [hd] at htags
  cases htags

/-- What an ingest leaves behind for one source row, and what chargeback makes of it. -/
theorem exists_stored {rows : List FocusCharge} {aggs : List AggregatedFocusCharge}
    {s s' : DbSession} {n : Nat × Nat} {account : Uuid} {order : QueryOrder}
    {tagKey accountName : String} {out : List AggregatedCost}
    (hrows : ∀ c ∈ rows, LoaderRow c ∧ SixDecimals c.billedCost ∧ SixDecimals c.amortizedCost)
    (hagg : aggregateForStorage rows = .ok aggs)
    (hkeep : ∀ agg ∈ aggs, KeepsKeys s.working account agg)
    (hup : upsertAggregated s account aggs = .ok (s', n))
    (hout : aggregateByTag (readCharges order s'.working account accountName) tagKey = .ok out)
    {c : FocusCharge} (hc : c ∈ rows) :
    ∃ r ∈ s'.working.focusCharges, r.accountId = account ∧ chargeKey r = bucketKey c ∧
      r.billingCurrency = c.billingCurrency ∧
      r.cost = ((group rows (bucketKey c)).map (·.cost)).sum ∧
      (∀ x ∈ s'.working.focusCharges, x.accountId = account → chargeKey x = bucketKey c → x = r) ∧
      ∀ p : String → Bool, totalCost out (fun k => ofBucket account c k && p k.tagValue) =
        keptTotal tagKey (group rows (bucketKey c)) p := by
  obtain ⟨hkeys, hof⟩ := aggregateForStorage_mem hagg
  have hne : ∀ agg ∈ aggs, agg.perRowTagDicts ≠ [] := fun agg hm =>
    perRowTagDicts_ne_nil (fun c hc => (hrows c hc).1) hagg hm
  obtain ⟨hstored, _, hcanon⟩ := upsertAggregated_stores
    (fun agg hm => ⟨hkeep agg hm, hne agg hm, (hof agg hm).canonical⟩)
    (by rw [hkeys]; exact (bucketRows rows).nodup) hup
  have hmem : bucketKey c ∈ (bucketRows rows).keys := mem_keys_bucketRows.2 ⟨c, hc, rfl⟩
  rw [← hkeys] at hmem
  obtain ⟨agg, hm, hk⟩ := List.mem_map.1 hmem
  obtain ⟨r, hr⟩ := hstored agg hm
  have hbilled := (hof agg hm).billedCost
  have hamortized := (hof agg hm).amortizedCost
  have hdicts := (hof agg hm).perRowTagDicts
  have hcosts := (hof agg hm).perRowCosts
  have hcurrency := (hof agg hm).currency
  rw [hk] at hbilled hamortized hdicts hcosts hcurrency
  have hg : ∀ x ∈ group rows (bucketKey c), x.tags = [rowTags x] ∧ x.perRowCosts = [x.cost] := by
    intro x hx
    obtain ⟨d, hd, hp⟩ := (hrows x (mem_group.1 hx).1).1
    exact ⟨by rw [rowTags, hd]; rfl, hp⟩
  have hsix : ∀ x ∈ group rows (bucketKey c),
      SixDecimals x.billedCost ∧ SixDecimals x.amortizedCost :=
    fun x hx => (hrows x (mem_group.1 hx).1).2
  have hcost : r.cost = ((group rows (bucketKey c)).map (·.cost)).sum := by
    rw [sum_cost, ← hbilled, ← hamortized]
    refine Prod.ext (hr.billedCost.trans (numeric6_of_sixDecimals ?_))
      (hr.amortizedCost.trans (numeric6_of_sixDecimals ?_))
    · rw [hbilled]
      exact sixDecimals_total fun x hx => (hsix x hx).1
    · rw [hamortized]
      exact sixDecimals_total fun x hx => (hsix x hx).2
  have hcur : r.billingCurrency = c.billingCurrency :=
    hr.currency.trans (hcurrency c (mem_group.2 ⟨hc, rfl⟩)).symm
  have honly : ∀ x ∈ s'.working.focusCharges, x.accountId = account → chargeKey x = bucketKey c →
      x = r := by
    intro x hx hxa hxk
    exact hr.only x hx hxa (hxk.trans hk.symm)
  refine ⟨r, hr.mem, hr.accountId, hr.key.trans hk, hcur, hcost, honly, fun p => ?_⟩
  refine totalCost_bucket hout hr.mem hr.accountId (hr.key.trans hk) hcur ?_ honly ?_ hsix hcost p
  · intro x hx hxa
    rcases hcanon x hx hxa with hx | hx
    · exact (hkeep agg hm x hx hxa).1
    · exact hx
  · rw [hr.tags, hdicts, hcosts,
      flatMap_single fun x hx => (hg x hx).1, flatMap_single fun x hx => (hg x hx).2]

/-- Chargeback conserves cost through storage exactly when, in every bucket with a tagged row,
the untagged rows cost nothing. -/
theorem conserves_iff {rows : List FocusCharge} {aggs : List AggregatedFocusCharge}
    {s s' : DbSession} {n : Nat × Nat} {account : Uuid} {tagKey : String}
    (hrows : ∀ c ∈ rows, LoaderRow c ∧ SixDecimals c.billedCost ∧ SixDecimals c.amortizedCost)
    (hagg : aggregateForStorage rows = .ok aggs)
    (hkeep : ∀ agg ∈ aggs, KeepsKeys s.working account agg)
    (hup : upsertAggregated s account aggs = .ok (s', n)) (htag : tagKey ≠ "")
    (order : QueryOrder) (accountName : String) :
    ∃ out, aggregateByTag (readCharges order s'.working account accountName) tagKey = .ok out ∧
      (Conserves rows s'.working account tagKey out ↔ UntaggedFree rows) := by
  obtain ⟨out, hout⟩ := aggregateByTag_readCharges htag order s'.working account accountName
  refine ⟨out, hout, ?_⟩
  have hfilter : ∀ l : List FocusCharge, l.filter (fun _ => true) = l :=
    fun l => List.filter_eq_self.2 fun _ _ => rfl
  constructor
  · intro h c hc htagged
    obtain ⟨r, _, _, _, _, hcost, honly, htotal⟩ := exists_stored hrows hagg hkeep hup hout hc
    obtain ⟨r', hr', hra', hrk', _, htotal', _⟩ := h.stored c hc
    have hrr := honly r' hr' hra' hrk'
    subst hrr
    have hall := htotal fun _ => true
    simp only [Bool.and_true] at hall
    have hany : ((group rows (bucketKey c)).any fun x => !untaggedRow x) = true := by
      rw [List.any_eq_true]
      refine ⟨c, ?_, by rw [htagged]; rfl⟩
      rw [group, List.mem_filter]
      exact ⟨hc, decide_eq_true rfl⟩
    have hadd := keptTotal_add tagKey (group rows (bucketKey c)) fun _ => true
    rw [← hall, htotal', hany, hfilter, ← hcost] at hadd
    exact left_eq_add.1 hadd.symm
  · intro hfree
    have hkept : ∀ c ∈ rows, ∀ p : String → Bool,
        keptTotal tagKey (group rows (bucketKey c)) p =
          (((group rows (bucketKey c)).filter fun x => p (ownValue tagKey x)).map (·.cost)).sum := by
      intro c hc p
      rw [← keptTotal_add]
      refine (add_zero _).symm.trans (congrArg _ ?_)
      split
      · rename_i h
        rw [Bool.and_eq_true, List.any_eq_true] at h
        obtain ⟨_, x, hx, hxt⟩ := h
        rw [group, List.mem_filter, decide_eq_true_eq] at hx
        rw [← hx.2]
        exact (hfree x hx.1 (by simpa using hxt)).symm
      · rfl
    constructor
    · intro c hc
      obtain ⟨r, hr, hra, hrk, hcur, hcost, honly, htotal⟩ :=
        exists_stored hrows hagg hkeep hup hout hc
      have hall := htotal fun _ => true
      simp only [Bool.and_true] at hall
      rw [hkept c hc, hfilter, ← hcost] at hall
      exact ⟨r, hr, hra, hrk, hcur, hall, honly⟩
    · intro c hc v
      obtain ⟨_, _, _, _, _, _, _, htotal⟩ := exists_stored hrows hagg hkeep hup hout hc
      rw [htotal fun w => decide (w = v), hkept c hc]

/-! ## A tagged and an untagged row -/

def sampleRow (tags : TagDict) (cost : Rat) : FocusCharge where
  accountId := "0"
  accountName := ""
  service := "Amazon RDS"
  region := none
  pricingCategory := none
  periodStart := .ofYmd 2026 1 1
  periodEnd := .ofYmd 2026 1 31
  billedCost := cost
  amortizedCost := cost
  resourceId := none
  subAccountId := none
  tags := [tags]
  billingCurrency := "EUR"
  perRowCosts := [(cost, cost)]
  serviceCanonical := none

def web : TagDict := Dict.empty.set "team" "web"

def oneAccount : Store :=
  { Store.empty with accounts := Table.empty.put ⟨0, "123456789012", none⟩ }

/-- Ingest `rows` for account 0, read them back and split them by team. -/
def sampleRun (rows : List FocusCharge) : Option (Store × List AggregatedCost) :=
  match aggregateForStorage rows with
  | .error _ => none
  | .ok aggs =>
    match upsertAggregated (.begin oneAccount) 0 aggs with
    | .error _ => none
    | .ok (s, _) =>
      match aggregateByTag (readCharges insertionOrder s.working 0 "") "team" with
      | .error _ => none
      | .ok out => some (s.working, out)

/-- One row of 3 EUR for web and one of 97 EUR without tags: the 97 EUR are in no bucket. -/
theorem untagged_cost_lost : ∃ s out, sampleRun [sampleRow web 3, sampleRow .empty 97] =
    some (s, out) ∧ ¬ Conserves [sampleRow web 3, sampleRow .empty 97] s 0 "team" out := by
  have h : (sampleRun [sampleRow web 3, sampleRow .empty 97]).map (fun p =>
      (p.1.focusCharges.rows.map (·.cost), totalCost p.2 (ofBucket 0 (sampleRow web 3)))) =
        some ([(100, 100)], (3, 3)) := by decide +kernel
  cases hrun : sampleRun [sampleRow web 3, sampleRow .empty 97] with
  | none => rw [hrun] at h; cases h
  | some p =>
    rw [hrun, Option.map_some, Option.some.injEq, Prod.mk.injEq] at h
    refine ⟨p.1, p.2, rfl, fun hcons => ?_⟩
    obtain ⟨r, hr, _, _, _, htotal, _⟩ := hcons.stored _ List.mem_cons_self
    have hmem : r.cost ∈ p.1.focusCharges.rows.map (·.cost) := List.mem_map.2 ⟨r, hr, rfl⟩
    rw [h.1, ← htotal, h.2, List.mem_singleton] at hmem
    exact absurd hmem (by decide +kernel)

theorem keepsKeys_of_empty {s : Store} (h : s.focusCharges.rows = []) (account : Uuid)
    (agg : AggregatedFocusCharge) : KeepsKeys s account agg := by
  intro r hr
  rw [Table.mem_def, h] at hr
  cases hr

theorem sampleRow_ok (tags : TagDict) (n : Nat) :
    LoaderRow (sampleRow tags n) ∧ SixDecimals (sampleRow tags n).billedCost ∧
      SixDecimals (sampleRow tags n).amortizedCost :=
  ⟨⟨tags, rfl, rfl⟩, ⟨n * 1000000, by simp [sampleRow]⟩, ⟨n * 1000000, by simp [sampleRow]⟩⟩

/-- Two tagged rows are conserved. -/
theorem tagged_cost_conserved : ∃ s out,
    aggregateByTag (readCharges insertionOrder s 0 "") "team" = .ok out ∧
      Conserves [sampleRow web 3, sampleRow (Dict.empty.set "team" "api") 97] s 0 "team" out := by
  have hup : ((aggregateForStorage [sampleRow web 3,
      sampleRow (Dict.empty.set "team" "api") 97]).toOption.bind fun aggs =>
        (upsertAggregated (.begin oneAccount) 0 aggs).toOption).isSome = true := by
    decide +kernel
  cases hagg : aggregateForStorage [sampleRow web 3,
      sampleRow (Dict.empty.set "team" "api") 97] with
  | error e => rw [hagg] at hup; cases hup
  | ok aggs =>
    cases hs : upsertAggregated (.begin oneAccount) 0 aggs with
    | error e =>
      rw [hagg] at hup
      simp only [Except.toOption, Option.bind_some, hs] at hup
      cases hup
    | ok p =>
      obtain ⟨out, hout, hiff⟩ := conserves_iff
        (by
          intro c hc
          simp only [List.mem_cons, List.not_mem_nil, or_false] at hc
          rcases hc with rfl | rfl
          · exact sampleRow_ok _ 3
          · exact sampleRow_ok _ 97)
        hagg (fun agg _ => keepsKeys_of_empty rfl 0 agg) hs
        (show "team" ≠ "" by decide) insertionOrder ""
      refine ⟨p.1.working, out, hout, hiff.2 ?_⟩
      intro c hc _
      simp only [List.mem_cons, List.not_mem_nil, or_false] at hc
      rcases hc with rfl | rfl <;> decide +kernel

end Focus

end Constat
