import Mathlib.Data.List.Flatten
import Constat.Focus.Chargeback
import Constat.Lib.DictLoop
import Constat.Py.DecimalSums

/-!
# Focus.ByTag

`aggregate_by_tag` in the decimals of the program, over any charges: products and sums are rounded
to 28 digits, and one may raise in the middle of the loop.

* `DecimalCharge`  — a charge as the program has it.
* `Posting`        — what one input row, or one charge, adds to a bucket; a counted tag value has a
                     share of the charge.
* `aggregateByTag` — the loop over the charges.
* `ExactSums`      — the amounts of every bucket together fit in 28 digits: the loop then raises
                     for lists of different lengths only (`ExactSums.exists_run`), and a bucket has
                     the sums of its amounts (`ExactSums.get?_sums`).
-/

namespace Constat

namespace Focus

/-- A charge with one tag dict an input row, and with one pair of costs a row or none at all. -/
structure DecimalCharge where
  accountId : String
  accountName : String
  service : String
  region : Option String
  pricingCategory : Option String
  periodStart : Date
  periodEnd : Date
  billedCost : Decimal
  amortizedCost : Decimal
  resourceId : Option String
  subAccountId : Option String
  tags : List TagDict
  billingCurrency : String
  perRowCosts : List (Decimal × Decimal)
  serviceCanonical : Option String
deriving DecidableEq

/-- `share` is the count of a tag value and the count of all of them. -/
structure Posting where
  key : CostKey
  billed : Decimal
  amortized : Decimal
  share : Option (Nat × Nat)
  tags : TagDict
deriving DecidableEq

namespace DecimalCharge

def serviceKey (c : DecimalCharge) : String := orStr c.serviceCanonical c.service

def costKey (c : DecimalCharge) (service tagValue : String) : CostKey where
  accountId := c.accountId
  service := service
  periodStart := c.periodStart
  periodEnd := c.periodEnd
  billingCurrency := c.billingCurrency
  tagValue := tagValue

def costRows (tagKey : String) (c : DecimalCharge) : List Posting :=
  (c.tags.zip c.perRowCosts).map fun p =>
    ⟨c.costKey c.serviceKey (valueOf tagKey p.1), p.2.1, p.2.2, none, bucketTags tagKey p.1⟩

def perValueCount (tagKey : String) (c : DecimalCharge) : Dict String Nat :=
  (c.tags.filterMap (·.get? tagKey)).foldl (fun d v => d.update v fun n => n.getD 0 + 1) .empty

def attributeRowCount (tagKey : String) (c : DecimalCharge) : List Posting :=
  let counts := (c.perValueCount tagKey).items
  if counts.isEmpty then
    [⟨c.costKey c.service untagged, c.billedCost, c.amortizedCost, none, .empty⟩]
  else
    let total := (counts.map (·.2)).sum
    counts.map fun p => ⟨c.costKey c.service p.1, c.billedCost, c.amortizedCost, some (p.2, total),
      Dict.empty.set tagKey p.1⟩

def postings (tagKey : String) (c : DecimalCharge) : List Posting :=
  if c.perRowCosts ≠ [] then c.costRows tagKey
  else if c.tags ≠ [] then c.attributeRowCount tagKey
  else [⟨c.costKey c.serviceKey untagged, c.billedCost, c.amortizedCost, none, .empty⟩]

/-- Per-row costs, and not one for each tag dict. -/
def Uneven (c : DecimalCharge) : Prop := c.perRowCosts ≠ [] ∧ c.tags.length ≠ c.perRowCosts.length

instance (c : DecimalCharge) : Decidable c.Uneven := inferInstanceAs (Decidable (_ ∧ _))

def zipMismatch (c : DecimalCharge) : PyError where
  cls := "ValueError"
  msg := "zip() argument 2 is " ++
    (if c.perRowCosts.length < c.tags.length then "shorter" else "longer") ++ " than argument 1"

end DecimalCharge

/-- `cost * (Decimal(count) / Decimal(total_rows))` where values are counted. -/
def Posting.part (p : Posting) (cost : Decimal) : Except DecimalError Decimal :=
  match p.share with
  | none => .ok cost
  | some (count, total) => do Decimal.mul cost (← Decimal.ratio count total)

/-- The amounts of a posting as numbers. -/
def Posting.billedAmount (p : Posting) : Rat := ((p.part p.billed).toOption.getD .zero).value

def Posting.amortizedAmount (p : Posting) : Rat :=
  ((p.part p.amortized).toOption.getD .zero).value

namespace Loader

/-! ## Signals -/

/-- What a trapped signal raises. -/
def signal : DecimalError → PyError
  | .invalidOperation => ⟨"InvalidOperation", "[<class 'decimal.InvalidOperation'>]"⟩
  | .overflow => ⟨"Overflow", "[<class 'decimal.Overflow'>]"⟩

def trap {α : Type} (x : Except DecimalError α) : Except PyError α := x.mapError signal

@[simp] theorem trap_ok {α : Type} {x : Except DecimalError α} {a : α} :
    trap x = .ok a ↔ x = .ok a := by
  cases x <;> simp [trap, Except.mapError]

/-! ## The loop -/

structure LoadedCost where
  accountId : String
  service : String
  billedCost : Decimal
  amortizedCost : Decimal
  chargeCount : Nat
  periodStart : Option Date
  periodEnd : Option Date
  tags : List TagDict
  tagKey : Option String
  tagValue : Option String
  accountName : String
  billingCurrency : String
  serviceCanonical : Option String
deriving DecidableEq

structure LoadedBuckets where
  sums : Dict CostKey (Decimal × Decimal × Nat)
  tags : Dict CostKey (List TagDict)
  canonical : Dict CostKey String
  accountNames : Dict String String

def LoadedBuckets.empty : LoadedBuckets := ⟨.empty, .empty, .empty, .empty⟩

def addPosting (o : Option (Decimal × Decimal × Nat)) (p : Posting) :
    Except DecimalError (Decimal × Decimal × Nat) := do
  let prev := o.getD (.zero, .zero, 0)
  let billed ← Decimal.add prev.1 (← p.part p.billed)
  let amortized ← Decimal.add prev.2.1 (← p.part p.amortized)
  return (billed, amortized, prev.2.2 + 1)

/-- The buckets that remember the canonical name of a charge: its own, or with the row-count
fallback every bucket so far. -/
def canonicalKeys (tagKey : String) (c : DecimalCharge) (keys : List CostKey) : List CostKey :=
  if c.perRowCosts = [] ∧ c.tags ≠ [] then keys else (c.postings tagKey).map (·.key)

/-- The first name of an account that is not empty stays. -/
def rememberName (names : Dict String String) (c : DecimalCharge) : Dict String String :=
  if c.accountName ≠ "" ∧ (names.get? c.accountId).isNone then names.set c.accountId c.accountName
  else names

/-- `zip` raises after the pairs it has. -/
def addCharge (tagKey : String) (b : LoadedBuckets) (c : DecimalCharge) :
    Except PyError LoadedBuckets := do
  let sums ← trap (Dict.loopM (·.key) addPosting (c.postings tagKey) b.sums)
  if c.Uneven then throw c.zipMismatch
  return {
    sums := sums
    tags := (c.postings tagKey).foldl
      (fun d p => d.update p.key fun o => o.getD [] ++ [p.tags]) b.tags
    canonical := c.serviceCanonical.elim b.canonical fun name =>
      (canonicalKeys tagKey c sums.keys).foldl (fun d k => d.set k name) b.canonical
    accountNames := rememberName b.accountNames c }

def tagCost (tagKey : String) (b : LoadedBuckets) (p : CostKey × (Decimal × Decimal × Nat)) :
    LoadedCost where
  accountId := p.1.accountId
  service := p.1.service
  serviceCanonical := b.canonical.get? p.1
  billedCost := p.2.1
  amortizedCost := p.2.2.1
  chargeCount := p.2.2.2
  periodStart := some p.1.periodStart
  periodEnd := some p.1.periodEnd
  tags := ((b.tags.get? p.1).getD []).foldl addUnique []
  tagKey := some tagKey
  tagValue := some p.1.tagValue
  accountName := (b.accountNames.get? p.1.accountId).getD ""
  billingCurrency := p.1.billingCurrency

def aggregateByTag (charges : List DecimalCharge) (tagKey : String) :
    Except PyError (List LoadedCost) := do
  if tagKey = "" then throw emptyTagKey
  let b ← charges.foldlM (addCharge tagKey) .empty
  return b.sums.items.map (tagCost tagKey b)

/-! ## Runs -/

section

variable {tagKey : String} {charges : List DecimalCharge}

theorem addPosting_ok {o : Option (Decimal × Decimal × Nat)} {p : Posting}
    {v : Decimal × Decimal × Nat} : addPosting o p = .ok v ↔
      (∃ x, p.part p.billed = .ok x ∧ Decimal.add (o.getD (.zero, .zero, 0)).1 x = .ok v.1) ∧
      (∃ y, p.part p.amortized = .ok y ∧
        Decimal.add (o.getD (.zero, .zero, 0)).2.1 y = .ok v.2.1) ∧
      v.2.2 = (o.getD (.zero, .zero, 0)).2.2 + 1 := by
  unfold addPosting
  simp only [Loop.bind_ok]
  constructor
  · rintro ⟨x, hx, billed, hb, y, hy, amortized, ha, h⟩
    cases h
    exact ⟨⟨x, hx, hb⟩, ⟨y, hy, ha⟩, rfl⟩
  · rintro ⟨⟨x, hx, hb⟩, ⟨y, hy, ha⟩, hn⟩
    refine ⟨x, hx, v.1, hb, y, hy, v.2.1, ha, ?_⟩
    rw [← hn]
    rfl

theorem addCharge_ok {b b' : LoadedBuckets} {c : DecimalCharge} :
    addCharge tagKey b c = .ok b' ↔ ∃ sums,
      Dict.loopM (·.key) addPosting (c.postings tagKey) b.sums = .ok sums ∧ ¬ c.Uneven ∧
        b' = {
          sums := sums
          tags := (c.postings tagKey).foldl
            (fun d p => d.update p.key fun o => o.getD [] ++ [p.tags]) b.tags
          canonical := c.serviceCanonical.elim b.canonical fun name =>
            (canonicalKeys tagKey c sums.keys).foldl (fun d k => d.set k name) b.canonical
          accountNames := rememberName b.accountNames c } := by
  unfold addCharge
  simp only [Loop.bind_ok, trap_ok]
  refine exists_congr fun sums => and_congr_right fun _ => ?_
  by_cases hc : c.Uneven
  · simp [hc, throw, throwThe, MonadExceptOf.throw]
  · simp [hc, pure, Except.pure, eq_comm]

theorem aggregateByTag_ok_iff {out : List LoadedCost} :
    aggregateByTag charges tagKey = .ok out ↔ tagKey ≠ "" ∧ ∃ b,
      charges.foldlM (addCharge tagKey) .empty = .ok b ∧
        out = b.sums.items.map (tagCost tagKey b) := by
  unfold aggregateByTag
  by_cases htag : tagKey = ""
  · simp [htag, throw, throwThe, MonadExceptOf.throw, Loop.bind_ok]
  · rw [if_neg htag]
    simp only [ne_eq, htag, not_false_eq_true, true_and]
    constructor
    · intro h
      obtain ⟨b, hb, h⟩ := Loop.bind_ok.1 h
      cases h
      exact ⟨b, hb, rfl⟩
    · rintro ⟨b, hb, rfl⟩
      exact Loop.bind_ok.2 ⟨b, hb, rfl⟩

/-- The totals of a run come from its postings, one after the other. -/
theorem sums_of_addCharges : ∀ {b b' : LoadedBuckets},
    charges.foldlM (addCharge tagKey) b = .ok b' →
      Dict.loopM (·.key) addPosting (charges.flatMap (·.postings tagKey)) b.sums = .ok b'.sums ∧
        ∀ c ∈ charges, ¬ c.Uneven := by
  induction charges with
  | nil => intro b b' h; cases h; exact ⟨rfl, fun c hc => (by cases hc)⟩
  | cons c charges ih =>
    intro b b' h
    obtain ⟨b₁, hstep, hrest⟩ := Loop.foldlM_cons_ok.1 h
    obtain ⟨sums, hsums, heven, rfl⟩ := addCharge_ok.1 hstep
    obtain ⟨hloop, hevens⟩ := ih hrest
    rw [List.flatMap_cons]
    exact ⟨Dict.loopM_append.2 ⟨sums, hsums, hloop⟩, List.forall_mem_cons.2 ⟨heven, hevens⟩⟩

theorem addCharges_of_sums (heven : ∀ c ∈ charges, ¬ c.Uneven) : ∀ {b : LoadedBuckets}
    {d : Dict CostKey (Decimal × Decimal × Nat)},
    Dict.loopM (·.key) addPosting (charges.flatMap (·.postings tagKey)) b.sums = .ok d →
      ∃ b', charges.foldlM (addCharge tagKey) b = .ok b' := by
  induction charges with
  | nil => intro b d _; exact ⟨b, rfl⟩
  | cons c charges ih =>
    intro b d h
    rw [List.forall_mem_cons] at heven
    rw [List.flatMap_cons] at h
    obtain ⟨sums, hsums, hrest⟩ := Dict.loopM_append.1 h
    obtain ⟨b', hb'⟩ := ih heven.2 (b := ⟨sums, _, _, _⟩) hrest
    exact ⟨b', Loop.foldlM_cons_ok.2 ⟨_, addCharge_ok.2 ⟨sums, hsums, heven.1, rfl⟩, hb'⟩⟩

/-- The loop over the postings of a key adds up both columns of their parts. -/
theorem rowsM_addPosting {f g : Posting → Decimal} {ps : List Posting}
    (hparts : ∀ p ∈ ps, p.part p.billed = .ok (f p) ∧ p.part p.amortized = .ok (g p)) :
    ∀ (v : Decimal × Decimal × Nat) {o : Option (Decimal × Decimal × Nat)},
      Dict.rowsM addPosting ps (some v) = .ok o ↔
        ∃ b a, (ps.map f).foldlM Decimal.add v.1 = .ok b ∧
          (ps.map g).foldlM Decimal.add v.2.1 = .ok a ∧ o = some (b, a, v.2.2 + ps.length) := by
  induction ps with
  | nil =>
    intro v o
    constructor
    · intro h
      cases h
      exact ⟨v.1, v.2.1, rfl, rfl, rfl⟩
    · rintro ⟨b, a, hb, ha, rfl⟩
      cases hb
      cases ha
      rfl
  | cons p ps ih =>
    intro v o
    rw [List.forall_mem_cons] at hparts
    rw [Dict.rowsM_cons]
    simp only [addPosting_ok, ih hparts.2, hparts.1, Except.ok.injEq, exists_eq_left',
      Option.getD_some, List.map_cons, Loop.foldlM_cons_ok]
    constructor
    · rintro ⟨w, ⟨hwb, hwa, hwn⟩, b, a, hb, ha, rfl⟩
      refine ⟨b, a, ⟨w.1, hwb, hb⟩, ⟨w.2.1, hwa, ha⟩, ?_⟩
      rw [hwn, List.length_cons, Nat.add_assoc, Nat.add_comm 1]
    · rintro ⟨b, a, ⟨wb, hwb, hb⟩, ⟨wa, hwa, ha⟩, rfl⟩
      refine ⟨(wb, wa, v.2.2 + 1), ⟨hwb, hwa, rfl⟩, b, a, hb, ha, ?_⟩
      rw [List.length_cons, Nat.add_assoc, Nat.add_comm 1]

/-- A bucket starts from zero. -/
theorem rowsM_none {f g : Posting → Decimal} {ps : List Posting} (hne : ps ≠ [])
    (hparts : ∀ p ∈ ps, p.part p.billed = .ok (f p) ∧ p.part p.amortized = .ok (g p))
    {o : Option (Decimal × Decimal × Nat)} : Dict.rowsM addPosting ps none = .ok o ↔
      ∃ b a, Decimal.sum (ps.map f) = .ok b ∧ Decimal.sum (ps.map g) = .ok a ∧
        o = some (b, a, ps.length) := by
  cases ps with
  | nil => exact absurd rfl hne
  | cons p ps =>
    have hstart : Dict.rowsM addPosting (p :: ps) none =
        Dict.rowsM addPosting (p :: ps) (some (.zero, .zero, 0)) := rfl
    rw [hstart, rowsM_addPosting hparts]
    simp only [Decimal.sum, Nat.zero_add]

end

/-! ## Exact sums -/

section

variable (tagKey : String) (charges : List DecimalCharge) (k : CostKey)

/-- The postings to a bucket. -/
def entries : List Posting := (charges.flatMap (·.postings tagKey)).filter fun p => p.key = k

/-- The postings to a bucket added up, in the order of the charges. -/
def bucketSums : Except DecimalError (Option (Decimal × Decimal × Nat)) :=
  Dict.rowsM addPosting (entries tagKey charges k) none

/-- The amounts are numbers, and those of a bucket together fit in 28 digits. -/
structure ExactSums : Prop where
  parts : ∀ p ∈ charges.flatMap (·.postings tagKey),
    p.part p.billed = .ok (.finite p.billedAmount) ∧
      p.part p.amortized = .ok (.finite p.amortizedAmount)
  billed : ∀ k, ∃ d, Decimal.FitsDigits d ((entries tagKey charges k).map (·.billedAmount))
  amortized : ∀ k, ∃ d, Decimal.FitsDigits d ((entries tagKey charges k).map (·.amortizedAmount))

/-- What the entries of a bucket add up to. -/
def exactTotal : Decimal × Decimal × Nat :=
  (.finite ((entries tagKey charges k).map (·.billedAmount)).sum,
    .finite ((entries tagKey charges k).map (·.amortizedAmount)).sum,
    (entries tagKey charges k).length)

end

section

variable {tagKey : String} {charges charges' : List DecimalCharge}

/-- A run holds what the postings to each bucket add up to. -/
theorem bucketSums_run {b : LoadedBuckets}
    (h : charges.foldlM (addCharge tagKey) .empty = .ok b) (k : CostKey) :
    bucketSums tagKey charges k = .ok (b.sums.get? k) :=
  Dict.get?_loopM (sums_of_addCharges h).1 k

theorem exists_sums (h : ∀ k, ∃ o, bucketSums tagKey charges k = .ok o) : ∃ d,
    Dict.loopM (·.key) addPosting (charges.flatMap (·.postings tagKey)) .empty = .ok d :=
  Dict.exists_loopM h

/-- A run raises where an addition does, and for lists of different lengths. -/
theorem exists_run (heven : ∀ c ∈ charges, ¬ c.Uneven)
    (h : ∀ k, ∃ o, bucketSums tagKey charges k = .ok o) :
    ∃ b, charges.foldlM (addCharge tagKey) .empty = .ok b := by
  obtain ⟨d, hd⟩ := exists_sums h
  exact addCharges_of_sums heven (b := .empty) hd

theorem ExactSums.sublist (h : ExactSums tagKey charges) (hsub : charges'.Sublist charges) :
    ExactSums tagKey charges' where
  parts := fun p hp => by
    obtain ⟨c, hc, hp⟩ := List.mem_flatMap.1 hp
    exact h.parts p (List.mem_flatMap.2 ⟨c, hsub.subset hc, hp⟩)
  billed := fun k => by
    obtain ⟨d, hd⟩ := h.billed k
    exact ⟨d, hd.sublist (((hsub.flatMap _).filter _).map _)⟩
  amortized := fun k => by
    obtain ⟨d, hd⟩ := h.amortized k
    exact ⟨d, hd.sublist (((hsub.flatMap _).filter _).map _)⟩

theorem entries_perm (tagKey : String) (hperm : List.Perm charges charges') (k : CostKey) :
    List.Perm (entries tagKey charges k) (entries tagKey charges' k) :=
  (hperm.flatMap_right _).filter _

theorem ExactSums.perm (h : ExactSums tagKey charges) (hperm : List.Perm charges charges') :
    ExactSums tagKey charges' where
  parts := fun p hp => h.parts p ((hperm.flatMap_right _).mem_iff.2 hp)
  billed := fun k => by
    obtain ⟨d, hd⟩ := h.billed k
    exact ⟨d, hd.perm ((entries_perm tagKey hperm k).map _)⟩
  amortized := fun k => by
    obtain ⟨d, hd⟩ := h.amortized k
    exact ⟨d, hd.perm ((entries_perm tagKey hperm k).map _)⟩

theorem exactTotal_perm (hperm : List.Perm charges charges') (k : CostKey) :
    exactTotal tagKey charges k = exactTotal tagKey charges' k := by
  have hk := entries_perm tagKey hperm k
  simp only [exactTotal, (hk.map _).sum_eq, hk.length_eq]

/-- The loop over the entries of a bucket returns their exact sums. -/
theorem ExactSums.rows (h : ExactSums tagKey charges) {k : CostKey}
    (hne : entries tagKey charges k ≠ []) :
    Dict.rowsM addPosting (entries tagKey charges k) none =
      .ok (some (exactTotal tagKey charges k)) := by
  have hparts : ∀ p ∈ entries tagKey charges k, p.part p.billed = .ok (.finite p.billedAmount) ∧
      p.part p.amortized = .ok (.finite p.amortizedAmount) :=
    fun p hp => h.parts p (List.mem_filter.1 hp).1
  obtain ⟨d, hbilled⟩ := h.billed k
  obtain ⟨d', hamortized⟩ := h.amortized k
  have hsum := Decimal.sum_of_fits hbilled
  have hsum' := Decimal.sum_of_fits hamortized
  rw [List.map_map] at hsum hsum'
  exact (rowsM_none hne hparts).2 ⟨_, _, hsum, hsum', rfl⟩

theorem ExactSums.bucketSums_eq (h : ExactSums tagKey charges) (k : CostKey) :
    bucketSums tagKey charges k =
      .ok (if entries tagKey charges k = [] then none else some (exactTotal tagKey charges k)) := by
  unfold bucketSums
  by_cases hne : entries tagKey charges k = []
  · rw [if_pos hne, hne]
    rfl
  · rw [if_neg hne]
    exact h.rows hne

theorem ExactSums.get?_sums (h : ExactSums tagKey charges) {b : LoadedBuckets}
    (hrun : charges.foldlM (addCharge tagKey) .empty = .ok b) (k : CostKey) :
    b.sums.get? k =
      if entries tagKey charges k = [] then none else some (exactTotal tagKey charges k) :=
  Except.ok.inj ((bucketSums_run hrun k).symm.trans (h.bucketSums_eq k))

/-- Only lists of different lengths make the loop raise. -/
theorem ExactSums.exists_run (h : ExactSums tagKey charges) (heven : ∀ c ∈ charges, ¬ c.Uneven) :
    ∃ b, charges.foldlM (addCharge tagKey) .empty = .ok b :=
  Loader.exists_run heven fun k => ⟨_, h.bucketSums_eq k⟩

/-- The first charge with lists of different lengths makes it raise. -/
theorem ExactSums.uneven_raises (h : ExactSums tagKey charges) {c : DecimalCharge}
    (hc : charges.find? (fun c => decide c.Uneven) = some c) :
    charges.foldlM (addCharge tagKey) .empty = .error c.zipMismatch := by
  obtain ⟨huneven, before, after, rfl, heven⟩ := List.find?_eq_some_iff_append.1 hc
  have hsub : (before ++ [c]).Sublist (before ++ c :: after) :=
    (List.sublist_append_left [c] after).append_left before
  obtain ⟨d, hd⟩ := exists_sums fun k => ⟨_, (h.sublist hsub).bucketSums_eq k⟩
  rw [List.flatMap_append, List.flatMap_cons, List.flatMap_nil, List.append_nil] at hd
  obtain ⟨d₁, hd₁, hlast⟩ := Dict.loopM_append.1 hd
  obtain ⟨b, hb⟩ : ∃ b, before.foldlM (addCharge tagKey) .empty = .ok b :=
    addCharges_of_sums (fun x hx => by simpa using heven x hx) hd₁
  obtain rfl : d₁ = b.sums := Except.ok.inj (hd₁.symm.trans (sums_of_addCharges hb).1)
  have hstep : addCharge tagKey b c = .error c.zipMismatch := by
    unfold addCharge
    rw [hlast]
    show (if c.Uneven then _ else _) = _
    rw [if_pos (of_decide_eq_true huneven)]
    rfl
  have hrest : (c :: after).foldlM (addCharge tagKey) b = .error c.zipMismatch := by
    rw [List.foldlM_cons, hstep]
    rfl
  rw [List.foldlM_append, hb]
  exact hrest

end

end Loader

end Focus

end Constat
