import Mathlib.Algebra.Module.Prod
import Constat.Focus.Transparency

/-!
# Focus.RowCount

The row-count fallback of `aggregate_by_tag` (`_attribute_row_count`, for charges without per-row
costs) against the per-row path, on charges whose rows all cost the same.

* `EqualRows` — such a charge; `withoutCosts` takes its per-row costs away.
* `Agree` — two bags of contributions fill the same buckets with the same amounts.
* `CountsLikeCosts` — when the fallback agrees for one charge. It files under the native service
  name, keeps an empty tag value as a value, and leaves out the rows without the key as soon as one
  row has it.
-/

namespace Constat

namespace Focus

/-! ## Agreement -/

/-- The amounts that `xs` adds up to in the bucket `k`. -/
def amountIn (xs : List Contribution) (k : CostKey) : Rat × Rat :=
  ((xs.filter fun x => x.key = k).map (·.cost)).sum

def Present (xs : List Contribution) (k : CostKey) : Prop := ∃ x ∈ xs, x.key = k

def Agree (xs ys : List Contribution) : Prop :=
  ∀ k, (Present xs k ↔ Present ys k) ∧ amountIn xs k = amountIn ys k

/-- Key and amounts of one output row. -/
def amounts (a : AggregatedCost) : CostKey × Rat × Rat := (outputKey a, a.billedCost, a.amortizedCost)

theorem amountIn_eq (xs : List Contribution) (k : CostKey) :
    amountIn xs k = ((bucketTotal xs k).1, (bucketTotal xs k).2.1) := by
  unfold amountIn bucketTotal
  induction xs.filter fun x => x.key = k with
  | nil => rfl
  | cons x l ih =>
    rw [List.map_cons, List.sum_cons, ih]
    rfl

theorem amountIn_of_not_present {xs : List Contribution} {k : CostKey} (h : ¬ Present xs k) :
    amountIn xs k = 0 := by
  have hnil : (xs.filter fun x => x.key = k) = [] := by
    rw [List.filter_eq_nil_iff]
    intro x hx hk
    exact h ⟨x, hx, of_decide_eq_true hk⟩
  rw [amountIn, hnil]
  rfl

theorem mem_amounts {charges : List FocusCharge} {tagKey : String} {out : List AggregatedCost}
    (h : aggregateByTag charges tagKey = .ok out) {p : CostKey × Rat × Rat} :
    p ∈ out.map amounts ↔ Present (charges.flatMap (contributions tagKey)) p.1 ∧
      p.2 = amountIn (charges.flatMap (contributions tagKey)) p.1 := by
  have hmap : out.map amounts = (out.map costSummary).map fun q => (q.1, q.2.1, q.2.2.1) := by
    rw [List.map_map]
    rfl
  rw [hmap, List.mem_map, amountIn_eq]
  constructor
  · rintro ⟨q, hq, rfl⟩
    obtain ⟨hpresent, htotal⟩ := (mem_costSummary h).1 hq
    exact ⟨hpresent, by rw [← htotal]⟩
  · rintro ⟨hpresent, hp⟩
    refine ⟨(p.1, bucketTotal (charges.flatMap (contributions tagKey)) p.1),
      (mem_costSummary h).2 ⟨hpresent, rfl⟩, ?_⟩
    rw [← hp]

/-- Two outputs have the same buckets and amounts when their contributions agree. -/
theorem amounts_perm_iff {charges charges' : List FocusCharge} {tagKey : String}
    {out out' : List AggregatedCost} (h : aggregateByTag charges tagKey = .ok out)
    (h' : aggregateByTag charges' tagKey = .ok out') :
    List.Perm (out.map amounts) (out'.map amounts) ↔
      Agree (charges.flatMap (contributions tagKey)) (charges'.flatMap (contributions tagKey)) := by
  have hnodup : ∀ {charges : List FocusCharge} {out : List AggregatedCost},
      aggregateByTag charges tagKey = .ok out → (out.map amounts).Nodup := by
    intro charges out h
    refine List.Nodup.of_map Prod.fst ?_
    rw [List.map_map]
    exact nodup_costSummary h
  rw [List.perm_ext_iff_of_nodup (hnodup h) (hnodup h')]
  simp only [mem_amounts h, mem_amounts h']
  constructor
  · intro hiff k
    have hpresent : Present (charges.flatMap (contributions tagKey)) k ↔
        Present (charges'.flatMap (contributions tagKey)) k :=
      ⟨fun hp => ((hiff (k, amountIn _ k)).1 ⟨hp, rfl⟩).1,
        fun hp => ((hiff (k, amountIn _ k)).2 ⟨hp, rfl⟩).1⟩
    refine ⟨hpresent, ?_⟩
    by_cases hp : Present (charges.flatMap (contributions tagKey)) k
    · exact ((hiff (k, amountIn _ k)).1 ⟨hp, rfl⟩).2
    · rw [amountIn_of_not_present hp, amountIn_of_not_present (hpresent.not.1 hp)]
  · intro hagree p
    rw [(hagree p.1).1, (hagree p.1).2]

theorem Agree.flatMap {α : Type} {f g : α → List Contribution} {l : List α}
    (h : ∀ a ∈ l, Agree (f a) (g a)) : Agree (l.flatMap f) (l.flatMap g) := by
  intro k
  constructor
  · simp only [Present, List.mem_flatMap]
    constructor
    · rintro ⟨x, ⟨a, ha, hx⟩, hk⟩
      obtain ⟨y, hy, hyk⟩ := ((h a ha) k).1.1 ⟨x, hx, hk⟩
      exact ⟨y, ⟨a, ha, hy⟩, hyk⟩
    · rintro ⟨x, ⟨a, ha, hx⟩, hk⟩
      obtain ⟨y, hy, hyk⟩ := ((h a ha) k).1.2 ⟨x, hx, hk⟩
      exact ⟨y, ⟨a, ha, hy⟩, hyk⟩
  · rw [amountIn, amountIn, sum_flatMap, sum_flatMap]
    exact congrArg List.sum (List.map_congr_left fun a ha => ((h a ha) k).2)

/-! ## Charges whose rows cost the same -/

/-- All input rows of the charge cost the same, and together what it costs. -/
def EqualRows (c : FocusCharge) : Prop :=
  ∃ cost, c.perRowCosts = List.replicate c.tags.length cost ∧
    (c.tags ≠ [] → c.cost = (c.tags.length : Rat) • cost)

def withoutCosts (c : FocusCharge) : FocusCharge := { c with perRowCosts := [] }

/-- With per-row costs and without them `aggregate_by_tag` returns the same buckets with the same
amounts. -/
def FallbackAgrees (tagKey : String) (charges : List FocusCharge) : Prop :=
  ∃ out out', aggregateByTag charges tagKey = .ok out ∧
    aggregateByTag (charges.map withoutCosts) tagKey = .ok out' ∧
    List.Perm (out'.map amounts) (out.map amounts)

/-- The charge is filed under its native name, no row has an empty value of the tag, and every row
has the tag; or the rows without it make no difference: no row has it, or has a value other than
`__untagged__`, or else the charge costs nothing and `__untagged__` is one of the values. -/
def CountsLikeCosts (tagKey : String) (c : FocusCharge) : Prop :=
  c.tags = [] ∨
    (serviceKey c = c.service ∧ (∀ d ∈ c.tags, d.get? tagKey ≠ some "") ∧
      ((∀ d ∈ c.tags, d.get? tagKey ≠ none) ∨ (∀ d ∈ c.tags, valueOf tagKey d = untagged) ∨
        (c.cost = 0 ∧ ∃ d ∈ c.tags, d.get? tagKey = some untagged)))

section

variable {tagKey : String} {c : FocusCharge}

/-- The values the fallback counts. -/
def tagValues (tagKey : String) (c : FocusCharge) : List String := c.tags.filterMap (·.get? tagKey)

theorem mem_tagValues {v : String} : v ∈ tagValues tagKey c ↔ ∃ d ∈ c.tags, d.get? tagKey = some v :=
  List.mem_filterMap

theorem mem_perValueCount {p : String × Nat} : p ∈ (perValueCount tagKey c).items ↔
    p.1 ∈ tagValues tagKey c ∧ p.2 = (tagValues tagKey c).count p.1 := by
  rw [Dict.mem_items, perValueCount, Dict.get?_foldl_count, tagValues]
  split
  · rename_i h
    simp only [h, true_and, Option.some.injEq, eq_comm]
  · rename_i h
    simp only [h, false_and, reduceCtorEq]

/-- What one row costs, per row. -/
theorem costRows_eq {cost : Rat × Rat}
    (hcosts : c.perRowCosts = List.replicate c.tags.length cost) :
    costRows tagKey c = c.tags.map fun d =>
      ⟨costKey c (serviceKey c) (valueOf tagKey d), cost.1, cost.2, bucketTags tagKey d⟩ := by
  have hzip : ∀ l : List TagDict, l.zip (List.replicate l.length cost) = l.map fun d => (d, cost) := by
    intro l
    induction l with
    | nil => rfl
    | cons d l ih =>
      rw [List.length_cons, List.replicate_succ, List.zip_cons_cons, ih, List.map_cons]
  rw [costRows, hcosts, hzip, List.map_map]
  rfl

theorem present_costRows {cost : Rat × Rat}
    (hcosts : c.perRowCosts = List.replicate c.tags.length cost) {k : CostKey} :
    Present (costRows tagKey c) k ↔
      ∃ d ∈ c.tags, costKey c (serviceKey c) (valueOf tagKey d) = k := by
  simp [Present, costRows_eq hcosts]

theorem costKey_inj {s s' v v' : String} : costKey c s v = costKey c s' v' ↔ s = s' ∧ v = v' := by
  simp [costKey]

theorem amountIn_costRows {cost : Rat × Rat}
    (hcosts : c.perRowCosts = List.replicate c.tags.length cost) (tagKey v : String) :
    amountIn (costRows tagKey c) (costKey c (serviceKey c) v) =
      ((c.tags.map (valueOf tagKey)).count v : Rat) • cost := by
  rw [amountIn, costRows_eq hcosts]
  induction c.tags with
  | nil => simp
  | cons d l ih =>
    rw [List.map_cons, List.filter_cons, List.map_cons, List.count_cons]
    by_cases h : valueOf tagKey d = v
    · simp only [h, decide_true, if_true, List.map_cons, List.sum_cons, ih, beq_self_eq_true,
        Nat.cast_add, Nat.cast_one, add_smul, one_smul]
      exact add_comm _ _
    · have hk : ¬ costKey c (serviceKey c) (valueOf tagKey d) = costKey c (serviceKey c) v :=
        fun he => h (costKey_inj.1 he).2
      simp only [hk, decide_false, Bool.false_eq_true, if_false, ih, beq_iff_eq, h, add_zero]

/-! ## The fallback -/

theorem attributeRowCount_of_nil (h : tagValues tagKey c = []) : attributeRowCount tagKey c =
    [⟨costKey c c.service untagged, c.billedCost, c.amortizedCost, .empty⟩] := by
  have hnil : (perValueCount tagKey c).items = [] := by
    rw [List.eq_nil_iff_forall_not_mem]
    intro p hp
    have := (mem_perValueCount.1 hp).1
    rw [h] at this
    cases this
  simp [attributeRowCount, hnil]

/-- Each value has its share of the rows that have the tag. -/
theorem attributeRowCount_of_ne (h : tagValues tagKey c ≠ []) : attributeRowCount tagKey c =
    (perValueCount tagKey c).items.map fun p =>
      ⟨costKey c c.service p.1, c.billedCost * (p.2 / (tagValues tagKey c).length),
        c.amortizedCost * (p.2 / (tagValues tagKey c).length), Dict.empty.set tagKey p.1⟩ := by
  obtain ⟨v, hv⟩ := List.exists_mem_of_ne_nil _ h
  have hne : ¬ (perValueCount tagKey c).items.isEmpty := by
    rw [List.isEmpty_iff]
    have hmem : (v, (tagValues tagKey c).count v) ∈ (perValueCount tagKey c).items :=
      mem_perValueCount.2 ⟨hv, rfl⟩
    exact List.ne_nil_of_mem hmem
  have htotal : ((perValueCount tagKey c).items.map (·.2)).sum = (tagValues tagKey c).length :=
    Dict.sum_foldl_count _
  simp only [attributeRowCount, hne, htotal]
  rfl

theorem present_attributeRowCount (h : tagValues tagKey c ≠ []) {k : CostKey} :
    Present (attributeRowCount tagKey c) k ↔
      ∃ v ∈ tagValues tagKey c, costKey c c.service v = k := by
  simp only [Present, attributeRowCount_of_ne h, List.mem_map, exists_exists_and_eq_and]
  constructor
  · rintro ⟨p, hp, hk⟩
    exact ⟨p.1, (mem_perValueCount.1 hp).1, hk⟩
  · rintro ⟨v, hv, hk⟩
    exact ⟨(v, (tagValues tagKey c).count v), mem_perValueCount.2 ⟨hv, rfl⟩, hk⟩

theorem amountIn_attributeRowCount (h : tagValues tagKey c ≠ []) (v : String) :
    amountIn (attributeRowCount tagKey c) (costKey c c.service v) =
      (((tagValues tagKey c).count v : Rat) / (tagValues tagKey c).length) • c.cost := by
  by_cases hv : v ∈ tagValues tagKey c
  · have hfilter : (attributeRowCount tagKey c).filter (fun x => x.key = costKey c c.service v) =
        [⟨costKey c c.service v, c.billedCost * ((tagValues tagKey c).count v /
            (tagValues tagKey c).length), c.amortizedCost * ((tagValues tagKey c).count v /
            (tagValues tagKey c).length), Dict.empty.set tagKey v⟩] := by
      have hitems : (perValueCount tagKey c).items.filter (fun p => p.1 = v) =
          [(v, (tagValues tagKey c).count v)] := by
        refine Dict.filter_key_items ?_
        rw [perValueCount, Dict.get?_foldl_count]
        exact if_pos hv
      rw [attributeRowCount_of_ne h, List.filter_map]
      have hcongr : (perValueCount tagKey c).items.filter
          ((fun x : Contribution => decide (x.key = costKey c c.service v)) ∘ fun p =>
            ⟨costKey c c.service p.1, c.billedCost * (p.2 / (tagValues tagKey c).length),
              c.amortizedCost * (p.2 / (tagValues tagKey c).length),
              Dict.empty.set tagKey p.1⟩) =
          (perValueCount tagKey c).items.filter (fun p => p.1 = v) := by
        refine List.filter_congr fun p _ => ?_
        simp [costKey_inj]
      rw [hcongr, hitems]
      rfl
    rw [amountIn, hfilter]
    simp [Contribution.cost, FocusCharge.cost, mul_comm]
  · have hno : ¬ Present (attributeRowCount tagKey c) (costKey c c.service v) := by
      rw [present_attributeRowCount h]
      rintro ⟨w, hw, hk⟩
      rw [(costKey_inj.1 hk).2] at hw
      exact hv hw
    rw [amountIn_of_not_present hno, List.count_eq_zero.2 hv]
    simp

/-! ## The values of the two paths -/

theorem valueOf_ne_empty (tagKey : String) (d : TagDict) : valueOf tagKey d ≠ "" := by
  unfold valueOf
  split
  · decide
  · split
    · decide
    · assumption

theorem valueOf_of_get? {d : TagDict} {v : String} (h : d.get? tagKey = some v) (hv : v ≠ "") :
    valueOf tagKey d = v := by
  simp [valueOf, h, hv]

theorem valueOf_of_none {d : TagDict} (h : d.get? tagKey = none) : valueOf tagKey d = untagged := by
  simp [valueOf, h]

/-- Under one service name only the values and their shares matter. -/
theorem agree_iff_values {cost : Rat × Rat}
    (hcosts : c.perRowCosts = List.replicate c.tags.length cost) (hservice : serviceKey c = c.service)
    (hne : tagValues tagKey c ≠ []) : Agree (attributeRowCount tagKey c) (costRows tagKey c) ↔
      ∀ v, (v ∈ tagValues tagKey c ↔ v ∈ c.tags.map (valueOf tagKey)) ∧
        (((tagValues tagKey c).count v : Rat) / (tagValues tagKey c).length) • c.cost =
          ((c.tags.map (valueOf tagKey)).count v : Rat) • cost := by
  have hcounted : ∀ v, Present (attributeRowCount tagKey c) (costKey c c.service v) ↔
      v ∈ tagValues tagKey c := by
    intro v
    rw [present_attributeRowCount hne]
    simp [costKey_inj]
  have hcosted : ∀ v, Present (costRows tagKey c) (costKey c c.service v) ↔
      v ∈ c.tags.map (valueOf tagKey) := by
    intro v
    rw [present_costRows hcosts, hservice]
    simp [costKey_inj]
  constructor
  · intro hagree v
    rw [← hcounted, ← hcosted, ← amountIn_attributeRowCount hne, ← amountIn_costRows hcosts, hservice]
    exact hagree _
  · intro hvalues k
    by_cases hk : ∃ v, costKey c c.service v = k
    · obtain ⟨v, rfl⟩ := hk
      rw [hcounted, hcosted, amountIn_attributeRowCount hne, ← hservice, amountIn_costRows hcosts]
      exact hvalues v
    · have hno : ¬ Present (attributeRowCount tagKey c) k := by
        rw [present_attributeRowCount hne]
        rintro ⟨v, _, rfl⟩
        exact hk ⟨v, rfl⟩
      have hno' : ¬ Present (costRows tagKey c) k := by
        rw [present_costRows hcosts, hservice]
        rintro ⟨d, _, rfl⟩
        exact hk ⟨_, rfl⟩
      rw [amountIn_of_not_present hno, amountIn_of_not_present hno']
      exact ⟨by simp only [hno, hno'], rfl⟩

/-- When every row has the tag, both paths see the same values. -/
theorem tagValues_of_tagged (hempty : ∀ d ∈ c.tags, d.get? tagKey ≠ some "")
    (hall : ∀ d ∈ c.tags, d.get? tagKey ≠ none) :
    tagValues tagKey c = c.tags.map (valueOf tagKey) := by
  unfold tagValues
  generalize c.tags = l at hempty hall ⊢
  induction l with
  | nil => rfl
  | cons d l ih =>
    rw [List.forall_mem_cons] at hempty hall
    obtain ⟨v, hv⟩ := Option.ne_none_iff_exists'.1 hall.1
    have hne : v ≠ "" := fun he => hempty.1 (he ▸ hv)
    rw [List.filterMap_cons, hv, List.map_cons, valueOf_of_get? hv hne]
    exact congrArg _ (ih hempty.2 hall.2)

/-- When every row's own value is `__untagged__`, there is no other value to count. -/
theorem tagValues_of_untagged (hempty : ∀ d ∈ c.tags, d.get? tagKey ≠ some "")
    (hall : ∀ d ∈ c.tags, valueOf tagKey d = untagged) {v : String} (hv : v ∈ tagValues tagKey c) :
    v = untagged := by
  obtain ⟨d, hd, hget⟩ := mem_tagValues.1 hv
  have hne : v ≠ "" := fun he => hempty d hd (he ▸ hget)
  rw [← valueOf_of_get? hget hne]
  exact hall d hd

/-- A value that is a row's own is counted once for each such row. -/
theorem count_tagValues (hempty : ∀ d ∈ c.tags, d.get? tagKey ≠ some "") {v : String}
    (hv : v ≠ untagged) :
    (tagValues tagKey c).count v = (c.tags.map (valueOf tagKey)).count v := by
  unfold tagValues
  generalize c.tags = l at hempty ⊢
  induction l with
  | nil => rfl
  | cons d l ih =>
    rw [List.forall_mem_cons] at hempty
    rw [List.filterMap_cons, List.map_cons, List.count_cons]
    cases hg : d.get? tagKey with
    | none =>
      rw [valueOf_of_none hg, ih hempty.2]
      simp [hv.symm]
    | some w =>
      rw [valueOf_of_get? hg fun h => hempty.1 (h ▸ hg), List.count_cons, ih hempty.2]

theorem length_tagValues_lt {d : TagDict} (hd : d ∈ c.tags) (hnone : d.get? tagKey = none) :
    (tagValues tagKey c).length < c.tags.length := by
  have hle := List.length_filterMap_le (·.get? tagKey) c.tags
  refine lt_of_le_of_ne hle fun heq => ?_
  obtain ⟨v, hv⟩ := Option.isSome_iff_exists.1 (List.filterMap_length_eq_length.1 heq d hd)
  rw [hnone] at hv
  cases hv

theorem smul_eq_zero_of_pos {q : Rat} {x : Rat × Rat} (hq : q ≠ 0) : q • x = 0 ↔ x = 0 := by
  simp [Prod.ext_iff, hq]

/-! ## When the fallback agrees -/

theorem contributions_costs {cost : Rat × Rat}
    (hcosts : c.perRowCosts = List.replicate c.tags.length cost) (hne : c.tags ≠ []) :
    contributions tagKey c = costRows tagKey c := by
  have hlength := List.length_pos_iff.2 hne
  rw [contributions, if_pos]
  rw [hcosts, ne_eq, List.replicate_eq_nil_iff]
  omega

theorem contributions_withoutCosts (hne : c.tags ≠ []) :
    contributions tagKey (withoutCosts c) = attributeRowCount tagKey c := by
  simp only [contributions, withoutCosts, ne_eq, not_true_eq_false, if_false, hne, not_false_eq_true,
    if_true]
  rfl

/-- All rows have `__untagged__` for their own value: the charge is in that bucket. -/
theorem count_untagged (hall : ∀ d ∈ c.tags, valueOf tagKey d = untagged) :
    (c.tags.map (valueOf tagKey)).count untagged = c.tags.length := by
  rw [List.count_eq_length.2, List.length_map]
  intro v hv
  obtain ⟨d, hd, rfl⟩ := List.mem_map.1 hv
  exact (hall d hd).symm

/-- No row has the tag: on both paths all of the charge goes to `__untagged__`. -/
theorem agree_of_no_value {cost : Rat × Rat}
    (hcosts : c.perRowCosts = List.replicate c.tags.length cost) (hne : c.tags ≠ [])
    (hcost : c.cost = (c.tags.length : Rat) • cost) (hservice : serviceKey c = c.service)
    (hnone : tagValues tagKey c = []) :
    Agree (attributeRowCount tagKey c) (costRows tagKey c) := by
  have hall : ∀ d ∈ c.tags, valueOf tagKey d = untagged := by
    intro d hd
    refine valueOf_of_none (Option.eq_none_iff_forall_not_mem.2 fun v hv => ?_)
    have hmem := mem_tagValues.2 ⟨d, hd, hv⟩
    rw [hnone] at hmem
    cases hmem
  have hpresent : ∀ k, Present (costRows tagKey c) k ↔ costKey c c.service untagged = k := by
    intro k
    rw [present_costRows hcosts, hservice]
    constructor
    · rintro ⟨d, hd, hk⟩
      rwa [hall d hd] at hk
    · rintro hk
      obtain ⟨d, hd⟩ := List.exists_mem_of_ne_nil _ hne
      exact ⟨d, hd, by rwa [hall d hd]⟩
  have hpresent' : ∀ k, Present (attributeRowCount tagKey c) k ↔ costKey c c.service untagged = k := by
    intro k
    simp [Present, attributeRowCount_of_nil hnone]
  intro k
  refine ⟨(hpresent' k).trans (hpresent k).symm, ?_⟩
  by_cases hk : costKey c c.service untagged = k
  · subst hk
    have hamount := amountIn_costRows hcosts tagKey untagged
    rw [hservice, count_untagged hall, ← hcost] at hamount
    rw [hamount, amountIn, attributeRowCount_of_nil hnone]
    simp [Contribution.cost, FocusCharge.cost]
  · rw [amountIn_of_not_present ((hpresent' k).not.2 hk), amountIn_of_not_present ((hpresent k).not.2 hk)]

theorem agree_of_countsLikeCosts (hrows : EqualRows c) (h : CountsLikeCosts tagKey c) :
    Agree (contributions tagKey (withoutCosts c)) (contributions tagKey c) := by
  obtain ⟨cost, hcosts, hcost⟩ := hrows
  by_cases hne : c.tags = []
  · have hsame : withoutCosts c = c := by
      have hnone : c.perRowCosts = [] := by rw [hcosts, hne]; rfl
      rw [withoutCosts, ← hnone]
    rw [hsame]
    exact fun k => ⟨Iff.rfl, rfl⟩
  obtain ⟨hservice, hempty, hrest⟩ := h.resolve_left hne
  rw [contributions_withoutCosts hne, contributions_costs hcosts hne]
  have hcost := hcost hne
  have hpos : ((c.tags.length : Nat) : Rat) ≠ 0 :=
    Nat.cast_ne_zero.2 (Nat.ne_of_gt (List.length_pos_iff.2 hne))
  by_cases hkeyed : tagValues tagKey c = []
  · exact agree_of_no_value hcosts hne hcost hservice hkeyed
  rw [agree_iff_values hcosts hservice hkeyed]
  have hlength : ((tagValues tagKey c).length : Rat) ≠ 0 :=
    Nat.cast_ne_zero.2 (Nat.ne_of_gt (List.length_pos_iff.2 hkeyed))
  intro v
  rcases hrest with hall | hall | ⟨hzero, d, hd, hget⟩
  · have hvalues := tagValues_of_tagged hempty hall
    refine ⟨by rw [hvalues], ?_⟩
    rw [hcost, smul_smul, hvalues, List.length_map, div_mul_cancel₀ _ hpos]
  · have honly : ∀ w ∈ tagValues tagKey c, w = untagged :=
      fun w hw => tagValues_of_untagged hempty hall hw
    have honly' : ∀ w ∈ c.tags.map (valueOf tagKey), w = untagged := by
      intro w hw
      obtain ⟨d, hd, rfl⟩ := List.mem_map.1 hw
      exact hall d hd
    by_cases hv : v = untagged
    · subst hv
      have hmem : untagged ∈ tagValues tagKey c := by
        obtain ⟨w, hw⟩ := List.exists_mem_of_ne_nil _ hkeyed
        rwa [honly w hw] at hw
      obtain ⟨d, hd⟩ := List.exists_mem_of_ne_nil _ hne
      refine ⟨⟨fun _ => List.mem_map.2 ⟨d, hd, hall d hd⟩, fun _ => hmem⟩, ?_⟩
      rw [count_untagged hall, List.count_eq_length.2 fun w hw => (honly w hw).symm,
        div_self hlength, one_smul, hcost]
    · have hno : v ∉ tagValues tagKey c := fun h => hv (honly v h)
      have hno' : v ∉ c.tags.map (valueOf tagKey) := fun h => hv (honly' v h)
      rw [List.count_eq_zero.2 hno, List.count_eq_zero.2 hno']
      simp [hno, hno']
  · have hcostZero : cost = 0 := by
      rw [hcost, smul_eq_zero_of_pos hpos] at hzero
      exact hzero
    refine ⟨⟨fun hv => ?_, fun hv => ?_⟩, by rw [hzero, hcostZero, smul_zero, smul_zero]⟩
    · obtain ⟨e, he, hev⟩ := mem_tagValues.1 hv
      exact List.mem_map.2 ⟨e, he, valueOf_of_get? hev fun h => hempty e he (h ▸ hev)⟩
    · obtain ⟨e, he, hev⟩ := List.mem_map.1 hv
      cases hg : e.get? tagKey with
      | none =>
        rw [valueOf_of_none hg] at hev
        exact mem_tagValues.2 ⟨d, hd, hev ▸ hget⟩
      | some w =>
        rw [valueOf_of_get? hg fun h => hempty e he (h ▸ hg)] at hev
        exact mem_tagValues.2 ⟨e, he, hev ▸ hg⟩

theorem countsLikeCosts_of_agree (hrows : EqualRows c)
    (h : Agree (contributions tagKey (withoutCosts c)) (contributions tagKey c)) :
    CountsLikeCosts tagKey c := by
  obtain ⟨cost, hcosts, hcost⟩ := hrows
  by_cases hne : c.tags = []
  · exact .inl hne
  rw [contributions_withoutCosts hne, contributions_costs hcosts hne] at h
  have hcost := hcost hne
  have hservice : serviceKey c = c.service := by
    obtain ⟨d, hd⟩ := List.exists_mem_of_ne_nil _ hne
    have hpresent := (h _).1.2 ((present_costRows hcosts).2 ⟨d, hd, rfl⟩)
    by_cases hkeyed : tagValues tagKey c = []
    · obtain ⟨x, hx, hk⟩ := hpresent
      rw [attributeRowCount_of_nil hkeyed, List.mem_singleton] at hx
      subst hx
      exact (costKey_inj.1 hk).1.symm
    · obtain ⟨v, _, hk⟩ := (present_attributeRowCount hkeyed).1 hpresent
      exact (costKey_inj.1 hk).1.symm
  by_cases hkeyed : tagValues tagKey c = []
  · have hnone : ∀ d ∈ c.tags, d.get? tagKey = none := by
      intro d hd
      refine Option.eq_none_iff_forall_not_mem.2 fun v hv => ?_
      have hmem := mem_tagValues.2 ⟨d, hd, hv⟩
      rw [hkeyed] at hmem
      cases hmem
    refine .inr ⟨hservice, fun d hd he => ?_, .inr (.inl fun d hd => valueOf_of_none (hnone d hd))⟩
    rw [hnone d hd] at he
    cases he
  rw [agree_iff_values hcosts hservice hkeyed] at h
  have hempty : ∀ d ∈ c.tags, d.get? tagKey ≠ some "" := by
    intro d hd he
    obtain ⟨e, _, hev⟩ := List.mem_map.1 ((h "").1.1 (mem_tagValues.2 ⟨d, hd, he⟩))
    exact valueOf_ne_empty tagKey e hev
  refine .inr ⟨hservice, hempty, ?_⟩
  by_cases hall : ∀ d ∈ c.tags, d.get? tagKey ≠ none
  · exact .inl hall
  by_cases hown : ∀ d ∈ c.tags, valueOf tagKey d = untagged
  · exact .inr (.inl hown)
  push Not at hall hown
  obtain ⟨d, hd, hnone⟩ := hall
  obtain ⟨e, he, hev⟩ := hown
  refine .inr (.inr ⟨?_, ?_⟩)
  · -- the rows without the tag count for nothing, so the shares of the others are too large
    have hmem : valueOf tagKey e ∈ tagValues tagKey c := by
      exact (h _).1.2 (List.mem_map_of_mem he)
    have hshare := (h (valueOf tagKey e)).2
    have hcount : ((tagValues tagKey c).count (valueOf tagKey e) : Rat) ≠ 0 :=
      Nat.cast_ne_zero.2 (Nat.ne_of_gt (List.count_pos_iff.2 hmem))
    have hlt : ((tagValues tagKey c).length : Rat) < c.tags.length :=
      Nat.cast_lt.2 (length_tagValues_lt hd hnone)
    have hlength : ((tagValues tagKey c).length : Rat) ≠ 0 :=
      Nat.cast_ne_zero.2 (Nat.ne_of_gt (List.length_pos_iff.2 hkeyed))
    rw [← count_tagValues hempty hev, hcost, smul_smul, ← sub_eq_zero, ← sub_smul,
      smul_eq_zero_of_pos] at hshare
    · rw [hcost, hshare, smul_zero]
    · have hfactor : ((tagValues tagKey c).count (valueOf tagKey e) : Rat) /
          (tagValues tagKey c).length * c.tags.length -
            (tagValues tagKey c).count (valueOf tagKey e) =
          (tagValues tagKey c).count (valueOf tagKey e) *
            (c.tags.length - (tagValues tagKey c).length) / (tagValues tagKey c).length := by
        field_simp
      rw [hfactor]
      exact div_ne_zero (mul_ne_zero hcount (sub_ne_zero.2 (ne_of_gt hlt))) hlength
  · exact mem_tagValues.1 ((h untagged).1.2 (List.mem_map.2 ⟨d, hd, valueOf_of_none hnone⟩))

/-- For any charges with equal rows: over every list of them the fallback has the buckets and the
amounts of the per-row path exactly when each of them meets the condition. -/
theorem fallbackAgrees_iff {charges : Set FocusCharge} (hrows : ∀ c ∈ charges, EqualRows c)
    (htag : tagKey ≠ "") :
    (∀ l, (∀ c ∈ l, c ∈ charges) → FallbackAgrees tagKey l) ↔
      ∀ c ∈ charges, CountsLikeCosts tagKey c := by
  have hok : ∀ l, (∀ c ∈ l, c ∈ charges) → ∃ out out', aggregateByTag l tagKey = .ok out ∧
      aggregateByTag (l.map withoutCosts) tagKey = .ok out' := by
    intro l hl
    have hwith : ∀ c ∈ l, c.perRowCosts = [] ∨ unparallel c = false := by
      intro c hc
      obtain ⟨cost, hcosts, _⟩ := hrows c (hl c hc)
      exact .inr (by simp [unparallel, hcosts])
    have hwithout : ∀ c ∈ l.map withoutCosts, c.perRowCosts = [] ∨ unparallel c = false := by
      intro c hc
      obtain ⟨c', _, rfl⟩ := List.mem_map.1 hc
      exact .inl rfl
    obtain ⟨out, hout⟩ := aggregateByTag_ok htag hwith
    obtain ⟨out', hout'⟩ := aggregateByTag_ok htag hwithout
    exact ⟨out, out', hout, hout'⟩
  constructor
  · intro hagrees c hc
    obtain ⟨out, out', hout, hout', hperm⟩ := hagrees [c] (by simpa using hc)
    rw [amounts_perm_iff hout' hout] at hperm
    refine countsLikeCosts_of_agree (hrows c hc) ?_
    simpa using hperm
  · intro hcounts l hl
    obtain ⟨out, out', hout, hout'⟩ := hok l hl
    refine ⟨out, out', hout, hout', ?_⟩
    rw [amounts_perm_iff hout' hout, List.flatMap_map]
    exact Agree.flatMap fun c hc => agree_of_countsLikeCosts (hrows c (hl c hc)) (hcounts c (hl c hc))

end

/-! ## One row of each kind -/

/-- Two rows of 50 EUR. -/
def evenCharge (first second : TagDict) : FocusCharge :=
  { sampleRow .empty 100 with tags := [first, second], perRowCosts := [(50, 50), (50, 50)] }

theorem evenCharge_equalRows (first second : TagDict) : EqualRows (evenCharge first second) := by
  refine ⟨(50, 50), rfl, fun _ => ?_⟩
  norm_num [evenCharge, sampleRow, FocusCharge.cost]

/-- One row is for web and one has no tag: without per-row costs web gets all 100 EUR. -/
theorem untagged_row_ignored : EqualRows (evenCharge web .empty) ∧
    ¬ FallbackAgrees "team" [evenCharge web .empty] := by
  refine ⟨evenCharge_equalRows web .empty, ?_⟩
  rintro ⟨out, out', hout, hout', hperm⟩
  have hrun : ((aggregateByTag [evenCharge web .empty] "team").toOption.bind fun out =>
      (aggregateByTag ([evenCharge web .empty].map withoutCosts) "team").toOption.map fun out' =>
        decide (List.Perm (out'.map amounts) (out.map amounts))) = some false := by
    decide +kernel
  rw [hout, hout'] at hrun
  simp [Except.toOption, hperm] at hrun

/-- Two tagged rows: the shares are the costs. -/
theorem tagged_rows_counted :
    FallbackAgrees "team" [evenCharge web (Dict.empty.set "team" "api")] := by
  have hrows : ∀ c ∈ ({evenCharge web (Dict.empty.set "team" "api")} : Set FocusCharge),
      EqualRows c := by
    rintro c rfl
    exact evenCharge_equalRows _ _
  refine (fallbackAgrees_iff hrows (by decide)).2 ?_ _ (by simp)
  rintro c rfl
  refine .inr ⟨rfl, ?_, .inl ?_⟩ <;> decide

end Focus

end Constat
