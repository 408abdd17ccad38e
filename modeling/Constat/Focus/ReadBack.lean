import Mathlib.Data.List.MinMax
import Constat.Focus.Storage
import Constat.Focus.Chargeback

/-!
# Focus.ReadBack

The read-back in `insights/runner.py`: the rows of `focus_charges` and `focus_charge_tags` become
charges again, with one tag dict and one cost per input row. The two loaders group the tag rows by
input row index, so an index without a tag row comes back as an empty dict with cost zero, and the
indexes after the last one that has a tag row do not come back at all.

`get?_loadPerRowTagsFor` and `get?_loadPerRowCostsFor` say what the loaders return for one charge,
whatever order the queries return their rows in.
-/

namespace Constat

namespace Focus


/-- The order in which the three queries return their rows. -/
structure QueryOrder where
  charges : List FocusChargeRow → List FocusChargeRow
  charges_perm : ∀ l, List.Perm (charges l) l
  tags : List FocusChargeTagRow → List FocusChargeTagRow
  tags_perm : ∀ l, List.Perm (tags l) l
  costs : List FocusChargeTagRow → List FocusChargeTagRow
  costs_perm : ∀ l, List.Perm (costs l) l

def insertionOrder : QueryOrder where
  charges l := l
  charges_perm _ := .refl _
  tags l := l
  tags_perm _ := .refl _
  costs l := l
  costs_perm _ := .refl _

def tagRowsOf (s : Store) (ids : List Nat) : List FocusChargeTagRow :=
  s.focusChargeTags.rows.filter fun r => r.focusChargeId ∈ ids

/-- All (key, value) pairs of the same input row, by charge and input row index. -/
def groupedTags (rows : List FocusChargeTagRow) : Dict (Nat × Nat) TagDict :=
  rows.foldl (fun d r => d.update (r.focusChargeId, r.inputRowIndex) fun o =>
    (o.getD .empty).set r.key r.value) .empty

/-- The largest input row index of each charge, `-1` when it has no tag row. -/
def maxIdxPerCharge (rows : List FocusChargeTagRow) (ids : List Nat) : Dict Nat Int :=
  rows.foldl (fun d r => d.update r.focusChargeId fun o =>
    max (o.getD (-1)) r.inputRowIndex) (ids.foldl (fun d i => d.set i (-1)) .empty)

def loadPerRowTagsFor (rows : List FocusChargeTagRow) (ids : List Nat) : Dict Nat (List TagDict) :=
  ids.foldl (fun d i => d.set i ((List.range
    (((maxIdxPerCharge rows ids).get? i).getD (-1) + 1).toNat).map fun j =>
      ((groupedTags rows).get? (i, j)).getD .empty)) .empty

/-- Keep the first cost seen for an input row. -/
def keepFirst (perInput : Dict Nat (Rat × Rat)) (r : FocusChargeTagRow) : Dict Nat (Rat × Rat) :=
  if (perInput.get? r.inputRowIndex).isNone then
    perInput.set r.inputRowIndex (r.billedCost, r.amortizedCost)
  else perInput

def groupedCosts (rows : List FocusChargeTagRow) (ids : List Nat) :
    Dict Nat (Dict Nat (Rat × Rat)) :=
  rows.foldl (fun d r => d.update r.focusChargeId fun o => keepFirst (o.getD .empty) r)
    (ids.foldl (fun d i => d.set i .empty) .empty)

def costList (perInput : Dict Nat (Rat × Rat)) : List (Rat × Rat) :=
  match perInput.keys.max? with
  | none => []
  | some maxIdx => (List.range (maxIdx + 1)).map fun j => (perInput.get? j).getD (0, 0)

def loadPerRowCostsFor (rows : List FocusChargeTagRow) (ids : List Nat) :
    Dict Nat (List (Rat × Rat)) :=
  (groupedCosts rows ids).items.foldl (fun d p => d.set p.1 (costList p.2)) .empty

/-- A storage row as a charge; without per-row data the cached unique dicts stand in. -/
def focusChargeToPydantic (orm : FocusChargeRow) (perRowTagDicts : Option (List TagDict))
    (perRowCosts : Option (List (Rat × Rat))) (accountName : String) : FocusCharge where
  accountId := Uuid.text orm.accountId
  accountName := accountName
  service := orm.service
  serviceCanonical := orm.serviceCanonical
  region := orm.region
  pricingCategory := orm.pricingCategory
  periodStart := orm.periodStart
  periodEnd := orm.periodEnd
  billedCost := orm.billedCost
  amortizedCost := orm.amortizedCost
  resourceId := orm.resourceId
  subAccountId := orm.subAccountId
  tags := perRowTagDicts.getD orm.tags
  perRowCosts := perRowCosts.getD []
  billingCurrency := orm.billingCurrency

/-- The charges of one account, as `run_chargeback` reads them. -/
def readCharges (order : QueryOrder) (s : Store) (account : Uuid) (accountName : String) :
    List FocusCharge :=
  let rows := order.charges (s.focusCharges.rows.filter fun r => r.accountId = account)
  let ids := rows.map (·.id)
  let tags := loadPerRowTagsFor (order.tags (tagRowsOf s ids)) ids
  let costs := loadPerRowCostsFor (order.costs (tagRowsOf s ids)) ids
  rows.map fun r => focusChargeToPydantic r (tags.get? r.id) (costs.get? r.id) accountName

/-! ## The loaders, one charge at a time -/

/-- One more than the largest input row index of a charge. -/
def IndexCount (rows : List FocusChargeTagRow) (id n : Nat) : Prop :=
  ∀ j, j < n ↔ ∃ r ∈ rows, r.focusChargeId = id ∧ j ≤ r.inputRowIndex

theorem IndexCount.unique {rows : List FocusChargeTagRow} {id n n' : Nat}
    (h : IndexCount rows id n) (h' : IndexCount rows id n') : n = n' := by
  have hiff : ∀ j, j < n ↔ j < n' := fun j => (h j).trans (h' j).symm
  have h₁ := hiff n
  have h₂ := hiff n'
  omega

theorem get?_initial {υ : Type} (ids : List Nat) (v : υ) {id : Nat} (hid : id ∈ ids) :
    (ids.foldl (fun d i => d.set i v) (.empty : Dict Nat υ)).get? id = some v := by
  rw [Dict.get?_foldl_set (fun i => i) (fun _ => v) ids .empty id (fun _ _ _ _ _ => rfl)]
  cases hf : ids.find? fun i => i = id with
  | some i => rfl
  | none => exact absurd (decide_eq_true rfl) (List.find?_eq_none.1 hf id hid)

/-- The fold that keeps the largest index. -/
theorem foldl_max_idx (l : List FocusChargeTagRow) (m : Int) (hm : -1 ≤ m) :
    ∃ n : Int, l.foldl (fun (o : Option Int) r => some (max (o.getD (-1)) r.inputRowIndex)) (some m) =
      some n ∧ -1 ≤ n ∧ ∀ j : Nat, (j : Int) ≤ n ↔ (j : Int) ≤ m ∨ ∃ r ∈ l, j ≤ r.inputRowIndex := by
  induction l generalizing m with
  | nil => exact ⟨m, rfl, hm, fun j => by simp⟩
  | cons r l ih =>
    obtain ⟨n, hn, hle, hiff⟩ := ih (max m r.inputRowIndex) (by omega)
    refine ⟨n, hn, hle, fun j => ?_⟩
    rw [hiff]
    simp only [List.mem_cons, exists_eq_or_imp]
    constructor
    · rintro (h | h)
      · rcases le_max_iff.1 h with h | h
        · exact .inl h
        · exact .inr (.inl (by omega))
      · exact .inr (.inr h)
    · rintro (h | h | h)
      · exact .inl (by omega)
      · exact .inl (by omega)
      · exact .inr h

theorem maxIdxPerCharge_count (rows : List FocusChargeTagRow) {ids : List Nat} {id : Nat}
    (hid : id ∈ ids) :
    IndexCount rows id (((maxIdxPerCharge rows ids).get? id).getD (-1) + 1).toNat := by
  rw [maxIdxPerCharge, Dict.get?_foldl_update (fun r : FocusChargeTagRow => r.focusChargeId)
    (fun o r => max (o.getD (-1)) (r.inputRowIndex : Int)), get?_initial ids _ hid]
  obtain ⟨n, hn, hle, hiff⟩ :=
    foldl_max_idx (rows.filter fun r => r.focusChargeId = id) (-1) (by omega)
  rw [hn, Option.getD_some]
  intro j
  have hj : j < (n + 1).toNat ↔ (j : Int) ≤ n := by omega
  rw [hj, hiff]
  constructor
  · rintro (h | ⟨r, hr, hjr⟩)
    · omega
    · have hm := List.mem_filter.1 hr
      exact ⟨r, hm.1, of_decide_eq_true hm.2, hjr⟩
  · rintro ⟨r, hr, hrid, hjr⟩
    exact .inr ⟨r, List.mem_filter.2 ⟨hr, decide_eq_true hrid⟩, hjr⟩

theorem get?_loadPerRowTagsFor (rows : List FocusChargeTagRow) {ids : List Nat} {id : Nat}
    (hid : id ∈ ids) : ∃ n, IndexCount rows id n ∧
      (loadPerRowTagsFor rows ids).get? id =
        some ((List.range n).map fun j => ((groupedTags rows).get? (id, j)).getD .empty) := by
  refine ⟨_, maxIdxPerCharge_count rows hid, ?_⟩
  rw [loadPerRowTagsFor, Dict.get?_foldl_set (fun i => i) _ ids .empty id
    (by intro x _ y _ he; rw [he])]
  cases hf : ids.find? fun i => i = id with
  | some i =>
    have hi : i = id := by simpa using List.find?_some hf
    subst hi
    rfl
  | none => exact absurd (decide_eq_true rfl) (List.find?_eq_none.1 hf id hid)

/-- The tag rows of one input row give its dict back, key by key. -/
theorem get?_groupedTags {rows : List FocusChargeTagRow} {id j : Nat} {k : String}
    (hfun : ∀ r ∈ rows, ∀ r' ∈ rows, r.focusChargeId = id → r'.focusChargeId = id →
      r.inputRowIndex = j → r'.inputRowIndex = j → r.key = r'.key → r.value = r'.value) :
    (((groupedTags rows).get? (id, j)).getD .empty).get? k =
      (rows.find? fun r => r.focusChargeId = id ∧ r.inputRowIndex = j ∧ r.key = k).map
        (·.value) := by
  have hfold : ∀ (l : List FocusChargeTagRow) (d : TagDict),
      l.foldl (fun (o : Option TagDict) r => some ((o.getD .empty).set r.key r.value)) (some d) =
        some (l.foldl (fun d r => d.set r.key r.value) d) := by
    intro l
    induction l with
    | nil => intro d; rfl
    | cons r l ih => intro d; rw [List.foldl_cons, Option.getD_some, ih]; rfl
  have hget : ((groupedTags rows).get? (id, j)).getD .empty =
      (rows.filter fun r => (r.focusChargeId, r.inputRowIndex) = (id, j)).foldl
        (fun d r => d.set r.key r.value) Dict.empty := by
    have hloop := Dict.get?_foldl_update
      (fun r : FocusChargeTagRow => (r.focusChargeId, r.inputRowIndex))
      (fun (o : Option TagDict) r => (o.getD .empty).set r.key r.value) rows .empty (id, j)
    rw [groupedTags]
    refine (congrArg (fun o => Option.getD o Dict.empty) hloop).trans ?_
    rw [Dict.get?_empty]
    cases rows.filter fun r => (r.focusChargeId, r.inputRowIndex) = (id, j) with
    | nil => rfl
    | cons r l =>
      rw [List.foldl_cons]
      exact congrArg (fun o => Option.getD o Dict.empty) (hfold l _)
  rw [hget, Dict.get?_foldl_set (fun r : FocusChargeTagRow => r.key) (fun r => r.value)]
  · rw [List.find?_filter]
    have hp : (fun r : FocusChargeTagRow =>
        decide (decide ((r.focusChargeId, r.inputRowIndex) = (id, j)) = true ∧
          decide (r.key = k) = true)) =
        fun r => decide (r.focusChargeId = id ∧ r.inputRowIndex = j ∧ r.key = k) := by
      funext r
      simp only [decide_eq_true_eq, Prod.mk.injEq, and_assoc]
    rw [hp]
    cases rows.find? fun r => r.focusChargeId = id ∧ r.inputRowIndex = j ∧ r.key = k <;> rfl
  · intro x hx y hy he
    have hxm := List.mem_filter.1 hx
    have hym := List.mem_filter.1 hy
    have hx' := Prod.mk.inj (of_decide_eq_true hxm.2)
    have hy' := Prod.mk.inj (of_decide_eq_true hym.2)
    exact hfun x hxm.1 y hym.1 hx'.1 hy'.1 hx'.2 hy'.2 he

theorem get?_foldl_keepFirst (l : List FocusChargeTagRow) (d : Dict Nat (Rat × Rat)) (j : Nat) :
    (l.foldl keepFirst d).get? j =
      (d.get? j).or ((l.find? fun r => r.inputRowIndex = j).map
        fun r => (r.billedCost, r.amortizedCost)) := by
  induction l generalizing d with
  | nil => rw [List.foldl_nil, List.find?_nil, Option.map_none, Option.or_none]
  | cons r l ih =>
    rw [List.foldl_cons, ih, keepFirst, List.find?_cons]
    by_cases h : r.inputRowIndex = j
    · subst h
      cases hd : d.get? r.inputRowIndex with
      | none => simp [Dict.get?_set]
      | some v => simp [hd]
    · have h' : ¬ j = r.inputRowIndex := fun he => h he.symm
      split
      · rw [Dict.get?_set, if_neg h', decide_eq_false h]
      · rw [decide_eq_false h]

theorem get?_groupedCosts (rows : List FocusChargeTagRow) {ids : List Nat} {id : Nat}
    (hid : id ∈ ids) : (groupedCosts rows ids).get? id =
      some ((rows.filter fun r => r.focusChargeId = id).foldl keepFirst .empty) := by
  have hfold : ∀ (l : List FocusChargeTagRow) (d : Dict Nat (Rat × Rat)),
      l.foldl (fun (o : Option (Dict Nat (Rat × Rat))) r =>
        some (keepFirst (o.getD .empty) r)) (some d) = some (l.foldl keepFirst d) := by
    intro l
    induction l with
    | nil => intro d; rfl
    | cons r l ih => intro d; exact ih (keepFirst d r)
  have hloop := Dict.get?_foldl_update (fun r : FocusChargeTagRow => r.focusChargeId)
    (fun (o : Option (Dict Nat (Rat × Rat))) r => keepFirst (o.getD .empty) r) rows
    (ids.foldl (fun d i => d.set i .empty) .empty) id
  rw [get?_initial ids _ hid, hfold] at hloop
  exact hloop

theorem get?_costList (perInput : Dict Nat (Rat × Rat)) :
    ∃ n, (∀ j, j < n ↔ ∃ i, (perInput.get? i).isSome ∧ j ≤ i) ∧
      costList perInput = (List.range n).map fun j => (perInput.get? j).getD (0, 0) := by
  have hkeys : ∀ i, i ∈ perInput.keys ↔ (perInput.get? i).isSome := by
    intro i
    rw [← not_iff_not, ← Dict.get?_eq_none, Option.not_isSome_iff_eq_none]
  rw [costList]
  cases hm : perInput.keys.max? with
  | none =>
    have hnil := List.max?_eq_none_iff.1 hm
    refine ⟨0, fun j => ⟨fun h => absurd h (Nat.not_lt_zero j), ?_⟩, rfl⟩
    rintro ⟨i, hi, _⟩
    rw [← hkeys, hnil] at hi
    cases hi
  | some m =>
    obtain ⟨hmem, hmax⟩ := List.max?_eq_some_iff.1 hm
    refine ⟨m + 1, fun j => ⟨fun h => ⟨m, (hkeys m).1 hmem, Nat.lt_succ_iff.1 h⟩, ?_⟩, rfl⟩
    rintro ⟨i, hi, hji⟩
    have := hmax i ((hkeys i).2 hi)
    omega

/-- The cost of an input row: that of its first tag row, or zero when it has none. -/
def storedCost (rows : List FocusChargeTagRow) (id j : Nat) : Rat × Rat :=
  ((rows.find? fun r => r.focusChargeId = id ∧ r.inputRowIndex = j).map
    fun r => (r.billedCost, r.amortizedCost)).getD (0, 0)

theorem get?_loadPerRowCostsFor (rows : List FocusChargeTagRow) {ids : List Nat} {id : Nat}
    (hid : id ∈ ids) : ∃ n, IndexCount rows id n ∧
      (loadPerRowCostsFor rows ids).get? id = some ((List.range n).map (storedCost rows id)) := by
  have hfirst : ∀ j, ((rows.filter fun r => r.focusChargeId = id).foldl keepFirst .empty).get? j =
      (rows.find? fun r => r.focusChargeId = id ∧ r.inputRowIndex = j).map
        fun r => (r.billedCost, r.amortizedCost) := by
    intro j
    rw [get?_foldl_keepFirst, Dict.get?_empty, Option.none_or, List.find?_filter]
    simp only [decide_eq_true_eq]
  obtain ⟨n, hn, hlist⟩ :=
    get?_costList ((rows.filter fun r => r.focusChargeId = id).foldl keepFirst .empty)
  refine ⟨n, fun j => (hn j).trans ?_, ?_⟩
  · simp only [hfirst, Option.isSome_map, List.find?_isSome, decide_eq_true_eq]
    constructor
    · rintro ⟨i, ⟨r, hr, hrid, rfl⟩, hji⟩
      exact ⟨r, hr, hrid, hji⟩
    · rintro ⟨r, hr, hrid, hji⟩
      exact ⟨r.inputRowIndex, ⟨r, hr, hrid, rfl⟩, hji⟩
  · have hitem := get?_groupedCosts rows hid
    rw [loadPerRowCostsFor, Dict.get?_foldl_set Prod.fst (fun p => costList p.2)]
    · have hfind : (groupedCosts rows ids).items.find? (fun p => p.1 = id) =
          some (id, (rows.filter fun r => r.focusChargeId = id).foldl keepFirst .empty) := by
        rw [Dict.get?] at hitem
        obtain ⟨p, hp, hv⟩ := Option.map_eq_some_iff.1 hitem
        have hk : p.1 = id := by simpa using List.find?_some hp
        rw [hp, ← hv, ← hk]
      rw [hfind]
      simp only [hlist, hfirst]
      rfl
    · intro x hx y hy he
      have : x = y := List.inj_on_of_nodup_map (groupedCosts rows ids).nodup hx hy he
      rw [this]

end Focus

end Constat
