import Constat.Focus.Conservation

/-!
# Focus.Partition

`aggregate_for_storage` splits the loader's rows. A row belongs to the group of its service key and
period and to no other, and what an aggregate holds is read off its group, so every total of the rows
is a total of the aggregates. The costs are rational numbers here; `Focus.StoragePartition` is about
the decimals of the program.

* `MixesCurrencies` — two rows of one group in two currencies: what the function refuses.
* `Partition` — what it returns otherwise.
-/

namespace Constat

namespace Focus

/-! ## Refusals -/

/-- Two rows of one service key and period are in two currencies. -/
def MixesCurrencies (charges : List FocusCharge) : Prop :=
  ∃ c ∈ charges, ∃ c' ∈ charges, bucketKey c = bucketKey c' ∧ c.billingCurrency ≠ c'.billingCurrency

theorem one_lt_length_dedup {l : List String} :
    l.dedup.length > 1 ↔ ∃ a ∈ l, ∃ b ∈ l, a ≠ b := by
  constructor
  · intro h
    obtain ⟨a, b, hab⟩ : ∃ a b, [a, b].Sublist l.dedup := by
      match hd : l.dedup, h with
      | a :: b :: t, _ => exact ⟨a, b, by simp⟩
    have hne : a ≠ b := by simpa using hab.nodup (List.nodup_dedup l)
    have hmem := hab.subset
    exact ⟨a, List.mem_dedup.1 (hmem (by simp)), b, List.mem_dedup.1 (hmem (by simp)), hne⟩
  · rintro ⟨a, ha, b, hb, hne⟩
    by_contra hlen
    exact hne ((eq_headD_of_dedup hlen ha).trans (eq_headD_of_dedup hlen hb).symm)

theorem aggregateBucket_error {key : BucketKey} {rows : List FocusCharge} :
    (∃ e, aggregateBucket key rows = .error e) ↔
      ∃ c ∈ rows, ∃ c' ∈ rows, c.billingCurrency ≠ c'.billingCurrency := by
  have hmixed := one_lt_length_dedup (l := rows.map (·.billingCurrency))
  simp only [List.mem_map, exists_exists_and_eq_and] at hmixed
  rw [← hmixed]
  unfold aggregateBucket
  by_cases h : (rows.map (·.billingCurrency)).dedup.length > 1
  · simp [h]
  · simp [h]

theorem LoaderRow.parallel {c : FocusCharge} (h : LoaderRow c) : unparallel c = false := by
  obtain ⟨d, htags, hcosts⟩ := h
  simp [unparallel, htags, hcosts]

/-- The lists of loader rows are parallel, so a group is refused for its currencies alone. -/
theorem aggregateGroup_eq {p : BucketKey × List FocusCharge} (h : ∀ c ∈ p.2, LoaderRow c) :
    aggregateGroup p = aggregateBucket p.1 p.2 := by
  have hnone : p.2.find? unparallel = none := by
    rw [List.find?_eq_none]
    intro c hc
    simp [(h c hc).parallel]
  simp only [aggregateGroup, hnone]

theorem aggregateForStorage_error {rows : List FocusCharge} (hrows : ∀ c ∈ rows, LoaderRow c) :
    (∃ e, aggregateForStorage rows = .error e) ↔ MixesCurrencies rows := by
  have hgroup : ∀ p ∈ (bucketRows rows).items,
      ((∃ e, aggregateGroup p = .error e) ↔
        ∃ c ∈ p.2, ∃ c' ∈ p.2, c.billingCurrency ≠ c'.billingCurrency) := by
    intro p hp
    obtain ⟨hp2, _⟩ := rows_of_mem_items hp
    rw [aggregateGroup_eq fun c hc => hrows c (mem_group.1 (hp2 ▸ hc)).1]
    exact aggregateBucket_error
  rw [aggregateForStorage, Loop.mapM_error]
  constructor
  · rintro ⟨p, hp, herr⟩
    obtain ⟨c, hc, c', hc', hne⟩ := (hgroup p hp).1 herr
    rw [(rows_of_mem_items hp).1, mem_group] at hc hc'
    exact ⟨c, hc.1, c', hc'.1, hc.2.trans hc'.2.symm, hne⟩
  · rintro ⟨c, hc, c', hc', hkey, hne⟩
    obtain ⟨p, hp, hk⟩ : ∃ p ∈ (bucketRows rows).items, p.1 = bucketKey c :=
      List.mem_map.1 (mem_keys_bucketRows.2 ⟨c, hc, rfl⟩)
    refine ⟨p, hp, (hgroup p hp).2 ⟨c, ?_, c', ?_, hne⟩⟩
    · rw [(rows_of_mem_items hp).1, mem_group]; exact ⟨hc, hk.symm⟩
    · rw [(rows_of_mem_items hp).1, mem_group]; exact ⟨hc', hkey.symm.trans hk.symm⟩

/-! ## What is returned -/

/-- The aggregates split the rows: each row is in the group of exactly one of them, with its tag
dict and its costs side by side. -/
structure Partition (rows : List FocusCharge) (aggs : List AggregatedFocusCharge) : Prop where
  one : ∀ c ∈ rows, ∃! agg, agg ∈ aggs ∧ agg.key = bucketKey c
  groups : List.Perm (aggs.flatMap fun agg => group rows agg.key) rows
  sideBySide : ∀ agg ∈ aggs, agg.perRowTagDicts.zip agg.perRowCosts =
    (group rows agg.key).map fun c => (rowTags c, c.cost)
  parallel : ∀ agg ∈ aggs, agg.perRowTagDicts.length = agg.chargeCount ∧
    agg.perRowCosts.length = agg.chargeCount
  count : ∀ agg ∈ aggs, agg.chargeCount = (group rows agg.key).length
  billed : ∀ agg ∈ aggs, (agg.perRowCosts.map (·.1)).sum = agg.billedCost
  amortized : ∀ agg ∈ aggs, (agg.perRowCosts.map (·.2)).sum = agg.amortizedCost
  totalBilled : (aggs.map (·.billedCost)).sum = (rows.map (·.billedCost)).sum
  totalAmortized : (aggs.map (·.amortizedCost)).sum = (rows.map (·.amortizedCost)).sum

theorem flatMap_tags {rows : List FocusCharge} (h : ∀ c ∈ rows, LoaderRow c) :
    rows.flatMap (·.tags) = rows.map rowTags := by
  rw [← List.flatMap_singleton' (rows.map rowTags), List.flatMap_map]
  refine List.flatMap_congr fun c hc => ?_
  obtain ⟨d, htags, _⟩ := h c hc
  simp [rowTags, htags]

theorem flatMap_costs {rows : List FocusCharge} (h : ∀ c ∈ rows, LoaderRow c) :
    rows.flatMap (·.perRowCosts) = rows.map (·.cost) := by
  rw [← List.flatMap_singleton' (rows.map (·.cost)), List.flatMap_map]
  refine List.flatMap_congr fun c hc => ?_
  obtain ⟨d, _, hcosts⟩ := h c hc
  simp [FocusCharge.cost, hcosts]

section

variable {rows : List FocusCharge} {aggs : List AggregatedFocusCharge}

theorem keys_of_aggregateForStorage (h : aggregateForStorage rows = .ok aggs) :
    (aggs.map (·.key)).Nodup ∧ ∀ key, key ∈ aggs.map (·.key) ↔ ∃ c ∈ rows, bucketKey c = key := by
  rw [(aggregateForStorage_mem h).1]
  exact ⟨(bucketRows rows).nodup, fun key => mem_keys_bucketRows⟩

theorem aggregateBucket_count {key : BucketKey} {l : List FocusCharge} {agg : AggregatedFocusCharge}
    (h : aggregateBucket key l = .ok agg) : agg.chargeCount = l.length := by
  simp only [aggregateBucket] at h
  split at h
  · cases h
  · cases h; rfl

theorem partition_of_ok (hrows : ∀ c ∈ rows, LoaderRow c) (h : aggregateForStorage rows = .ok aggs) :
    Partition rows aggs := by
  obtain ⟨hnodup, hkeys⟩ := keys_of_aggregateForStorage h
  have hof := (aggregateForStorage_mem h).2
  have hloader : ∀ (key : BucketKey), ∀ c ∈ group rows key, LoaderRow c :=
    fun key c hc => hrows c (mem_group.1 hc).1
  have hdicts : ∀ agg ∈ aggs, agg.perRowTagDicts = (group rows agg.key).map rowTags :=
    fun agg hagg => (hof agg hagg).perRowTagDicts.trans (flatMap_tags (hloader agg.key))
  have hcosts : ∀ agg ∈ aggs, agg.perRowCosts = (group rows agg.key).map (·.cost) :=
    fun agg hagg => (hof agg hagg).perRowCosts.trans (flatMap_costs (hloader agg.key))
  have hcount : ∀ agg ∈ aggs, agg.chargeCount = (group rows agg.key).length :=
    fun agg hagg => aggregateBucket_count (aggregateBucket_of_mem h hagg).2
  have hgroups : List.Perm (aggs.flatMap fun agg => group rows agg.key) rows := by
    rw [← List.flatMap_map]
    exact Dict.flatMap_filter_perm bucketKey hnodup rows fun c hc => (hkeys _).2 ⟨c, hc, rfl⟩
  -- a total over the rows, group by group
  have htotal : ∀ f : FocusCharge → Rat,
      (aggs.map fun agg => ((group rows agg.key).map f).sum).sum = (rows.map f).sum := by
    intro f
    rw [← (hgroups.map f).sum_eq, List.map_flatMap, List.flatMap, List.sum_flatten, List.map_map]
    rfl
  constructor
  · intro c hc
    obtain ⟨agg, hagg, hkey⟩ := List.mem_map.1 ((hkeys _).2 ⟨c, hc, rfl⟩)
    refine ⟨agg, ⟨hagg, hkey⟩, fun agg' h' => ?_⟩
    exact List.inj_on_of_nodup_map hnodup h'.1 hagg (h'.2.trans hkey.symm)
  · exact hgroups
  · intro agg hagg
    rw [hdicts agg hagg, hcosts agg hagg, List.zip_map']
  · intro agg hagg
    rw [hdicts agg hagg, hcosts agg hagg, hcount agg hagg]
    simp
  · exact hcount
  · intro agg hagg
    rw [hcosts agg hagg, (hof agg hagg).billedCost, List.map_map]
    rfl
  · intro agg hagg
    rw [hcosts agg hagg, (hof agg hagg).amortizedCost, List.map_map]
    rfl
  · rw [← htotal, List.map_congr_left fun agg hagg => (hof agg hagg).billedCost]
  · rw [← htotal, List.map_congr_left fun agg hagg => (hof agg hagg).amortizedCost]

end

end Focus

end Constat
