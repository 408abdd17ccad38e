import Constat.Focus.Ingest
import Constat.RuleRun

/-!
# Focus.ResourceCost

The FOCUS cost shown beside an insight. A stored charge folds all rows of its service and period
and keeps the most common resource id of them; `reconcile_with_focus` reads the charges with the
resource's id as the cost of that resource.

The `Ledger` keeps, for each stored charge, the rows last folded into it (no part of the program).
`resource_cost_iff` is the exact condition under which the amount shown is the resource's own:
the charges it represents in the latest period fold only its rows, and none of its rows of that
period is folded elsewhere.
-/

namespace Constat

namespace Focus

abbrev Ledger := Nat → List FocusCharge

/-! ## The ledger of the ingests -/

/-- The id of the charge an aggregate is stored in. -/
def slot (s : Store) (account : Uuid) (agg : AggregatedFocusCharge) : Nat :=
  match matching s account agg.key with
  | [] => s.focusCharges.next
  | old :: _ => old.id

/-- The ledger after an upsert. -/
def entered (account : Uuid) (charges : List FocusCharge) :
    DbSession → Ledger → List AggregatedFocusCharge → Ledger
  | _, ledger, [] => ledger
  | s, ledger, agg :: aggs =>
    match upsertOne s account agg with
    | .error _ => ledger
    | .ok (s', _) =>
      entered account charges s'
        (Function.update ledger (slot s.working account agg) (group charges agg.key)) aggs

/-- The ledger after an ingest. -/
def ledgerAfter (lower : String → String) (catalog : ServiceCatalog) (store : Store)
    (ledger : Ledger) (file : FocusFile) (externalId : String) (name : Option String) : Ledger :=
  let charges := loadFocus lower catalog file
  match aggregateForStorage charges, Accounts.getOrCreate (.begin store) externalId name with
  | .ok aggs, .ok (s, account) => entered account.id charges s ledger aggs
  | _, _ => ledger

/-- The stores ingests lead to, whatever else happens between them, with their ledgers. -/
inductive Ingested (lower : String → String) : Store → Ledger → Prop where
  | start {store : Store} (h : store.focusCharges.rows = []) : Ingested lower store fun _ => []
  | ingest {store store' : Store} {ledger : Ledger} {catalog : ServiceCatalog} {file : FocusFile}
      {externalId : String} {name : Option String} {result : IngestResult}
      (h : Ingested lower store ledger)
      (hi : ingestInto lower catalog store file externalId name = .ok (store', result)) :
      Ingested lower store' (ledgerAfter lower catalog store ledger file externalId name)
  | elsewhere {store store' : Store} {ledger : Ledger} (h : Ingested lower store ledger)
      (hsame : store'.focusCharges = store.focusCharges) : Ingested lower store' ledger

/-- What a stored charge keeps of the rows folded into it. -/
structure Folds (rows : List FocusCharge) (r : FocusChargeRow) : Prop where
  nonempty : rows ≠ []
  amortizedCost : r.amortizedCost = numeric6 (rows.map (·.amortizedCost)).sum
  resourceId : r.resourceId = mode (rows.map (·.resourceId))
  periodStart : ∀ c ∈ rows, c.periodStart = r.periodStart
  periodEnd : ∀ c ∈ rows, c.periodEnd = r.periodEnd

def Booked (s : Store) (ledger : Ledger) : Prop := ∀ r ∈ s.focusCharges, Folds (ledger r.id) r

theorem folds_of_storesIn {s : Store} {account : Uuid} {charges : List FocusCharge}
    {aggs : List AggregatedFocusCharge} (haggs : aggregateForStorage charges = .ok aggs)
    {agg : AggregatedFocusCharge} (hagg : agg ∈ aggs) {r : FocusChargeRow}
    (h : StoresIn s account agg r) :
    slot s account agg = r.id ∧ Folds (group charges agg.key) r := by
  obtain ⟨hne, hbucket⟩ := aggregateBucket_of_mem haggs hagg
  have hof := (aggregateForStorage_mem haggs).2 agg hagg
  have hfrom := aggregateBucket_fields hbucket
  have hperiod : ∀ c ∈ group charges agg.key,
      (c.periodStart, c.periodEnd) = (agg.periodStart, agg.periodEnd) := by
    intro c hc
    exact congrArg Prod.snd (of_decide_eq_true (List.mem_filter.1 hc).2 : bucketKey c = agg.key)
  cases h with
  | inserted hnone =>
    refine ⟨by rw [slot, hnone]; rfl, hne, congrArg numeric6 hof.amortizedCost, hfrom.resourceId,
      fun c hc => congrArg Prod.fst (hperiod c hc), fun c hc => congrArg Prod.snd (hperiod c hc)⟩
  | @updated old hone =>
    have hold : old ∈ matching s account agg.key := by
      rw [hone]; exact List.mem_singleton.2 rfl
    have hsame : (old.periodStart, old.periodEnd) = (agg.periodStart, agg.periodEnd) :=
      congrArg Prod.snd (mem_matching.1 hold).2.2
    refine ⟨by rw [slot, hone]; rfl, hne, congrArg numeric6 hof.amortizedCost, hfrom.resourceId,
      fun c hc => ?_, fun c hc => ?_⟩
    · exact congrArg Prod.fst ((hperiod c hc).trans hsame.symm)
    · exact congrArg Prod.snd ((hperiod c hc).trans hsame.symm)

/-- One aggregate is entered under the charge it is stored in; every other charge keeps its rows. -/
theorem booked_upsertOne {s s' : DbSession} {account : Uuid} {charges : List FocusCharge}
    {aggs : List AggregatedFocusCharge} (haggs : aggregateForStorage charges = .ok aggs)
    {agg : AggregatedFocusCharge} (hagg : agg ∈ aggs) {isNew : Bool} {ledger : Ledger}
    (hbooked : Booked s.working ledger) (h : upsertOne s account agg = .ok (s', isNew)) :
    Booked s'.working
      (Function.update ledger (slot s.working account agg) (group charges agg.key)) := by
  obtain ⟨r, hr, hput, _⟩ := upsertOne_cases h
  obtain ⟨hslot, hfolds⟩ := folds_of_storesIn haggs hagg hr
  rw [hslot]
  intro x hx
  rw [hput] at hx
  rcases Table.mem_put.1 hx with rfl | ⟨hx, hid⟩
  · rw [Function.update_self]; exact hfolds
  · rw [Function.update_of_ne hid]; exact hbooked x hx

theorem booked_upsertAggregated {account : Uuid} {charges : List FocusCharge}
    {all : List AggregatedFocusCharge} (hall : aggregateForStorage charges = .ok all)
    {aggs : List AggregatedFocusCharge} :
    ∀ {s s' : DbSession} {n : Nat × Nat} {ledger : Ledger}, (∀ agg ∈ aggs, agg ∈ all) →
      Booked s.working ledger → upsertAggregated s account aggs = .ok (s', n) →
      Booked s'.working (entered account charges s ledger aggs) := by
  induction aggs with
  | nil => intro s s' n ledger _ hbooked h; cases h; exact hbooked
  | cons agg aggs ih =>
    intro s s' n ledger hmem hbooked h
    rw [List.forall_mem_cons] at hmem
    obtain ⟨s₁, isNew, n', hone, hrest⟩ := upsertAggregated_cons h
    rw [entered, hone]
    exact ih hmem.2 (booked_upsertOne hall hmem.1 hbooked hone) hrest

theorem Ingested.booked {lower : String → String} {store : Store} {ledger : Ledger}
    (h : Ingested lower store ledger) : Booked store ledger := by
  induction h with
  | start h =>
    intro r hr
    rw [Table.mem_def, h] at hr
    cases hr
  | @ingest store store' ledger catalog file externalId name result _ hi ih =>
    simp only [ingestInto] at hi
    cases hf : ingestFocusFile lower catalog (.begin store) file externalId name with
    | error e => rw [hf] at hi; cases hi
    | ok p =>
      rw [hf] at hi
      obtain ⟨aggs, s, account, s', n, hagg, hacc, hup, hs, _⟩ := ingestFocusFile_ok hf
      cases hi
      rw [ledgerAfter, hagg, hacc, hs, Session.close_commit]
      refine booked_upsertAggregated hagg (fun _ hm => hm) ?_ hup
      intro r hr
      rw [(getOrCreate_spec hacc).1] at hr
      exact ih r hr
  | elsewhere _ hsame ih =>
    intro r hr
    rw [hsame] at hr
    exact ih r hr

/-! ## The resource's own rows -/

section

variable (nativeId : String) (service : Option String)

/-- A row of the resource, billed under the rule's service. -/
def own (c : FocusCharge) : Bool :=
  c.resourceId = some nativeId ∧ ∀ name ∈ service, c.service = name

def ownRows (ledger : Ledger) (r : FocusChargeRow) : List FocusCharge :=
  (ledger r.id).filter (own nativeId service)

/-- The rows of the latest period end among them. -/
def latestOf (rows : List FocusChargeRow) : List FocusChargeRow :=
  rows.filter fun r => ∀ r' ∈ rows, r'.periodEnd.ordinal ≤ r.periodEnd.ordinal

/-- The charges with rows of the resource, in the latest period it has rows in. -/
def ownLines (s : Store) (ledger : Ledger) : List FocusChargeRow :=
  latestOf (s.focusCharges.rows.filter fun r => (ownRows nativeId service ledger r) ≠ [])

/-- The charge's most common resource id is that of the resource, and its name the service's. -/
def Represented (ledger : Ledger) (r : FocusChargeRow) : Prop :=
  mode ((ledger r.id).map (·.resourceId)) = some nativeId ∧ ∀ name ∈ service, r.service = name

/-- No charge the resource represents ends later. -/
def InLatestPeriod (s : Store) (ledger : Ledger) (r : FocusChargeRow) : Prop :=
  ∀ r' ∈ s.focusCharges, Represented nativeId service ledger r' →
    r'.periodEnd.ordinal ≤ r.periodEnd.ordinal

/-- The charges the resource represents in the latest period fold only its own rows, and its rows
from that period on are folded nowhere else. -/
structure OwnBuckets (s : Store) (ledger : Ledger) : Prop where
  pure : ∀ r ∈ s.focusCharges, Represented nativeId service ledger r →
    InLatestPeriod nativeId service s ledger r → ∀ c ∈ ledger r.id, own nativeId service c = true
  nowhereElse : ∀ r ∈ s.focusCharges, (∃ c ∈ ledger r.id, own nativeId service c = true) →
    InLatestPeriod nativeId service s ledger r → Represented nativeId service ledger r

end

/-- 30 days of the summed costs of some charges, over the days from first to last. -/
def normalised (fp : Arith) (cost : FocusChargeRow → Rat) : List FocusChargeRow → Option PyFloat
  | [] => none
  | line :: rest =>
    let start := Reconcile.earliest line.periodStart (rest.map (·.periodStart))
    let end_ := Reconcile.latest line.periodEnd (rest.map (·.periodEnd))
    let days := end_.daysSince start + 1
    some (fp.mul (fp.div (fp.fit ((line :: rest).map cost).sum) (fp.fit days))
      (.finite Reconcile.daysInMonth))

/-- What the resource's own rows in a charge cost, at the scale of the column. -/
def ownCost (nativeId : String) (service : Option String) (ledger : Ledger) (r : FocusChargeRow) :
    Rat :=
  numeric6 ((ownRows nativeId service ledger r).map (·.amortizedCost)).sum

/-- The payload shows the normalised cost of exactly the resource's rows: the amount is theirs,
the charges that are read fold no other row, and no row of the latest period is missing. -/
structure ShowsOwnCost (fp : Arith) (s : Store) (ledger : Ledger) (nativeId : String)
    (service : Option String) (payload : List (String × Json)) : Prop where
  amount : Json.get? payload "focus_resource_monthly_usd" =
    (normalised fp (ownCost nativeId service ledger) (ownLines nativeId service s ledger)).map
      Json.float
  onlyOwn : ∀ r ∈ Reconcile.latestPeriodLines s nativeId service, ∀ c ∈ ledger r.id,
    own nativeId service c = true
  allOwn : ∀ r ∈ ownLines nativeId service s ledger,
    r ∈ Reconcile.latestPeriodLines s nativeId service

/-! ## Which charges are read -/

theorem latest_spec (d : Date) (ds : List Date) :
    Reconcile.latest d ds ∈ d :: ds ∧
      ∀ x ∈ d :: ds, x.ordinal ≤ (Reconcile.latest d ds).ordinal := by
  induction ds generalizing d with
  | nil =>
    refine ⟨List.mem_cons_self, fun x hx => ?_⟩
    rw [List.mem_singleton.1 hx]
    exact Int.le_refl _
  | cons e ds ih =>
    have hstep : Reconcile.latest d (e :: ds) = Reconcile.latest (if d < e then e else d) ds := rfl
    obtain ⟨hmem, hmax⟩ := ih (if d < e then e else d)
    rw [hstep]
    have hle : d.ordinal ≤ (if d < e then e else d).ordinal ∧
        e.ordinal ≤ (if d < e then e else d).ordinal := by
      split
      · rename_i h
        exact ⟨Int.le_of_lt h, Int.le_refl _⟩
      · rename_i h
        exact ⟨Int.le_refl _, Int.not_lt.1 h⟩
    constructor
    · rcases List.mem_cons.1 hmem with hm | hm
      · rw [hm]
        split
        · exact List.mem_cons_of_mem d List.mem_cons_self
        · exact List.mem_cons_self
      · exact List.mem_cons_of_mem d (List.mem_cons_of_mem e hm)
    · intro x hx
      have hfirst := hmax _ List.mem_cons_self
      rcases List.mem_cons.1 hx with rfl | hx
      · exact Int.le_trans hle.1 hfirst
      · rcases List.mem_cons.1 hx with rfl | hx
        · exact Int.le_trans hle.2 hfirst
        · exact hmax x (List.mem_cons_of_mem _ hx)

theorem mem_latestOf {rows : List FocusChargeRow} {r : FocusChargeRow} :
    r ∈ latestOf rows ↔
      r ∈ rows ∧ ∀ r' ∈ rows, r'.periodEnd.ordinal ≤ r.periodEnd.ordinal := by
  rw [latestOf, List.mem_filter, decide_eq_true_eq]

/-- Some row ends last. -/
theorem latestOf_ne_nil {rows : List FocusChargeRow} (h : rows ≠ []) : latestOf rows ≠ [] := by
  obtain ⟨r, rest, rfl⟩ := List.exists_cons_of_ne_nil h
  obtain ⟨hmem, hmax⟩ := latest_spec r.periodEnd (rest.map (·.periodEnd))
  rw [← List.map_cons] at hmem hmax
  obtain ⟨last, hlast, heq⟩ := List.mem_map.1 hmem
  refine List.ne_nil_of_mem (mem_latestOf.2 ⟨hlast, fun r' hr' => ?_⟩)
  rw [heq]
  exact hmax _ (List.mem_map_of_mem hr')

theorem latestPeriodLines_eq (s : Store) (nativeId : String) (service : Option String) :
    Reconcile.latestPeriodLines s nativeId service = latestOf (s.focusCharges.rows.filter fun r =>
      r.resourceId = some nativeId ∧ ∀ name ∈ service, r.service = name) := by
  unfold Reconcile.latestPeriodLines
  generalize (s.focusCharges.rows.filter fun r =>
    r.resourceId = some nativeId ∧ ∀ name ∈ service, r.service = name) = rows
  cases rows with
  | nil => rfl
  | cons r rest =>
    obtain ⟨hmem, hmax⟩ := latest_spec r.periodEnd (rest.map (·.periodEnd))
    rw [← List.map_cons] at hmem hmax
    obtain ⟨last, hlast, heq⟩ := List.mem_map.1 hmem
    refine List.filter_congr fun x hx => decide_eq_decide.2 ?_
    constructor
    · intro hend r' hr'
      rw [hend]
      exact hmax _ (List.mem_map_of_mem hr')
    · intro hall
      have hle := hall last hlast
      have hge := hmax _ (List.mem_map_of_mem hx)
      rw [heq] at hle
      have : x.periodEnd.ordinal = (Reconcile.latest r.periodEnd (rest.map (·.periodEnd))).ordinal :=
        Int.le_antisymm hge hle
      cases hx' : x.periodEnd
      cases hl' : Reconcile.latest r.periodEnd (rest.map (·.periodEnd))
      rw [hx', hl'] at this
      exact congrArg Date.mk this

section

variable {s : Store} {ledger : Ledger} {nativeId : String} {service : Option String}

theorem mem_lines (hbooked : Booked s ledger) {r : FocusChargeRow} :
    r ∈ Reconcile.latestPeriodLines s nativeId service ↔ r ∈ s.focusCharges ∧
      Represented nativeId service ledger r ∧ InLatestPeriod nativeId service s ledger r := by
  have hrep : ∀ {x}, x ∈ s.focusCharges.rows.filter (fun r =>
      r.resourceId = some nativeId ∧ ∀ name ∈ service, r.service = name) ↔
        x ∈ s.focusCharges ∧ Represented nativeId service ledger x := by
    intro x
    rw [List.mem_filter, decide_eq_true_eq]
    constructor
    · rintro ⟨hx, hid, hname⟩
      exact ⟨hx, (hbooked x hx).resourceId ▸ hid, hname⟩
    · rintro ⟨hx, hid, hname⟩
      exact ⟨hx, (hbooked x hx).resourceId ▸ hid, hname⟩
  rw [latestPeriodLines_eq, mem_latestOf, hrep]
  constructor
  · rintro ⟨⟨hr, hrepr⟩, hmax⟩
    exact ⟨hr, hrepr, fun r' hr' hrepr' => hmax r' (hrep.2 ⟨hr', hrepr'⟩)⟩
  · rintro ⟨hr, hrepr, hmax⟩
    exact ⟨⟨hr, hrepr⟩, fun r' hr' => hmax r' (hrep.1 hr').1 (hrep.1 hr').2⟩

/-- The charge folds a row of the resource. -/
def HasOwn (nativeId : String) (service : Option String) (ledger : Ledger) (r : FocusChargeRow) :
    Prop :=
  ∃ c ∈ ledger r.id, own nativeId service c = true

theorem mem_filter_ownRows {r : FocusChargeRow} :
    r ∈ s.focusCharges.rows.filter (fun r => ownRows nativeId service ledger r ≠ []) ↔
      r ∈ s.focusCharges ∧ HasOwn nativeId service ledger r := by
  rw [List.mem_filter, decide_eq_true_eq, ownRows, ne_eq, List.filter_eq_nil_iff]
  simp only [not_forall, Decidable.not_not, exists_prop]
  rfl

theorem mem_ownLines {r : FocusChargeRow} :
    r ∈ ownLines nativeId service s ledger ↔ r ∈ s.focusCharges ∧
      HasOwn nativeId service ledger r ∧ ∀ r' ∈ s.focusCharges, HasOwn nativeId service ledger r' →
        r'.periodEnd.ordinal ≤ r.periodEnd.ordinal := by
  rw [ownLines, mem_latestOf, mem_filter_ownRows]
  constructor
  · rintro ⟨⟨hr, ho⟩, hmax⟩
    exact ⟨hr, ho, fun r' hr' ho' => hmax r' (mem_filter_ownRows.2 ⟨hr', ho'⟩)⟩
  · rintro ⟨hr, ho, hmax⟩
    refine ⟨⟨hr, ho⟩, fun r' hr' => ?_⟩
    obtain ⟨hr's, ho'⟩ := mem_filter_ownRows.1 hr'
    exact hmax r' hr's ho'

/-- Two selections from one list that agree on every element are one. -/
theorem filter_eq_of_mem {α : Type} {l : List α} {p q : α → Bool}
    (h : ∀ x, x ∈ l.filter p ↔ x ∈ l.filter q) : l.filter p = l.filter q := by
  refine List.filter_congr fun x hx => Bool.eq_iff_iff.2 ?_
  have := h x
  rw [List.mem_filter, List.mem_filter] at this
  exact ⟨fun hp => (this.1 ⟨hx, hp⟩).2, fun hq => (this.2 ⟨hx, hq⟩).2⟩

/-- When the charges read fold only own rows and miss none, they are the resource's own lines. -/
theorem lines_eq_ownLines (hbooked : Booked s ledger)
    (honly : ∀ r ∈ Reconcile.latestPeriodLines s nativeId service, ∀ c ∈ ledger r.id,
      own nativeId service c = true)
    (hall : ∀ r ∈ ownLines nativeId service s ledger,
      r ∈ Reconcile.latestPeriodLines s nativeId service) :
    Reconcile.latestPeriodLines s nativeId service = ownLines nativeId service s ledger := by
  have hmem : ∀ r, r ∈ Reconcile.latestPeriodLines s nativeId service ↔
      r ∈ ownLines nativeId service s ledger := by
    refine fun r => ⟨fun hr => ?_, hall r⟩
    obtain ⟨hrs, hrep, hlatest⟩ := (mem_lines hbooked).1 hr
    have hown : HasOwn nativeId service ledger r := by
      obtain ⟨c, hc⟩ := List.exists_mem_of_ne_nil _ (hbooked r hrs).nonempty
      exact ⟨c, hc, honly r hr c hc⟩
    refine mem_ownLines.2 ⟨hrs, hown, fun r' hr' hown' => ?_⟩
    -- a charge with own rows that ends last is among those read, so it ends with `r`
    have hne : ownLines nativeId service s ledger ≠ [] := by
      refine latestOf_ne_nil (List.ne_nil_of_mem (a := r) (mem_filter_ownRows.2 ⟨hrs, hown⟩))
    obtain ⟨m, hm⟩ := List.exists_mem_of_ne_nil _ hne
    obtain ⟨hms, hmrep, _⟩ := (mem_lines hbooked).1 (hall m hm)
    exact Int.le_trans ((mem_ownLines.1 hm).2.2 r' hr' hown') (hlatest m hms hmrep)
  rw [latestPeriodLines_eq, ownLines, latestOf, latestOf, List.filter_filter,
    List.filter_filter] at hmem ⊢
  exact filter_eq_of_mem hmem

end

/-! ## What is shown -/

theorem get?_putRow (fields : List (String × Json)) (p : String × Json) (k : String) :
    Json.get? (Table.putRow Prod.fst p fields) k =
      if k = p.1 then some p.2 else Json.get? fields k := by
  induction fields with
  | nil =>
    by_cases h : k = p.1
    · simp [Table.putRow, Json.get?, h]
    · simp [Table.putRow, Json.get?, h, Ne.symm h]
  | cons q fields ih =>
    rw [Table.putRow]
    by_cases hq : q.1 = p.1
    · rw [if_pos hq]
      by_cases h : k = p.1
      · simp [Json.get?, h]
      · simp [Json.get?, h, Ne.symm h, hq]
    · rw [if_neg hq]
      unfold Json.get? at ih ⊢
      rw [List.find?_cons, List.find?_cons]
      by_cases hk : q.1 = k
      · have hkp : ¬ k = p.1 := hk ▸ hq
        simp [hk, hkp]
      · simpa [hk] using ih

/-- The context carries the normalised cost of the lines. -/
theorem get?_context {fp : Arith} {lines : List FocusChargeRow} {fields : List (String × Json)}
    (h : Reconcile.context fp lines = some fields) (payload : List (String × Json)) :
    Json.get? (updateFields payload fields) "focus_resource_monthly_usd" =
      (normalised fp (·.amortizedCost) lines).map Json.float := by
  cases lines with
  | nil => cases h
  | cons line rest =>
    simp only [Reconcile.context] at h
    split at h
    · cases h
    · cases h
      simp only [updateFields, List.foldl_cons, List.foldl_nil, get?_putRow]
      rfl

theorem normalised_congr {fp : Arith} {f g : FocusChargeRow → Rat} {lines : List FocusChargeRow}
    (h : ∀ r ∈ lines, f r = g r) : normalised fp f lines = normalised fp g lines := by
  cases lines with
  | nil => rfl
  | cons line rest => rw [normalised, normalised, List.map_congr_left h]

/-- The insights that get a context are written with it. -/
theorem mem_reconcileWithFocus {fp : Arith} {s : DbSession} {ruleName : String} {i i' : InsightRow}
    (hi : i ∈ Insights.ofRule s.working ruleName)
    (h : Reconcile.contextualized fp s.working ruleName i = some i') :
    i' ∈ (Reconcile.reconcileWithFocus fp s ruleName).working.insights := by
  obtain ⟨hmem, hname⟩ := List.mem_filter.1 hi
  rw [Table.mem_def, Reconcile.reconcileWithFocus, Runner.rows_ofRule_rewrite
    (Reconcile.contextualized fp s.working ruleName) (fun r r' => Runner.contextualized_row) s ruleName]
  refine List.mem_map.2 ⟨i, hmem, ?_⟩
  rw [if_pos (of_decide_eq_true hname), h, Option.getD_some]

section

variable {s : Store} {ledger : Ledger} {nativeId : String} {service : Option String}

/-- Own charges only, and none missing, from the buckets: a line that is read has own rows, so
the latest own charges end no earlier than it does. -/
theorem OwnBuckets.all (h : OwnBuckets nativeId service s ledger) (hbooked : Booked s ledger)
    (hne : Reconcile.latestPeriodLines s nativeId service ≠ []) :
    (∀ r ∈ Reconcile.latestPeriodLines s nativeId service, ∀ c ∈ ledger r.id,
      own nativeId service c = true) ∧
      ∀ r ∈ ownLines nativeId service s ledger,
        r ∈ Reconcile.latestPeriodLines s nativeId service := by
  have honly : ∀ r ∈ Reconcile.latestPeriodLines s nativeId service, ∀ c ∈ ledger r.id,
      own nativeId service c = true := by
    intro r hr
    obtain ⟨hrs, hrep, hlatest⟩ := (mem_lines hbooked).1 hr
    exact h.pure r hrs hrep hlatest
  refine ⟨honly, fun r hr => ?_⟩
  obtain ⟨hrs, hown, hmax⟩ := mem_ownLines.1 hr
  obtain ⟨line, hline⟩ := List.exists_mem_of_ne_nil _ hne
  obtain ⟨hls, _, hllatest⟩ := (mem_lines hbooked).1 hline
  obtain ⟨c, hc⟩ := List.exists_mem_of_ne_nil _ (hbooked line hls).nonempty
  have hle := hmax line hls ⟨c, hc, honly line hline c hc⟩
  have hlatest : InLatestPeriod nativeId service s ledger r :=
    fun r' hr' hrep' => Int.le_trans (hllatest r' hr' hrep') hle
  exact (mem_lines hbooked).2 ⟨hrs, h.nowhereElse r hrs hown hlatest, hlatest⟩

/-- The other way round: own rows of the latest period are in the lines that are read. -/
theorem ownBuckets_of_lines (hbooked : Booked s ledger)
    (honly : ∀ r ∈ Reconcile.latestPeriodLines s nativeId service, ∀ c ∈ ledger r.id,
      own nativeId service c = true)
    (hall : ∀ r ∈ ownLines nativeId service s ledger,
      r ∈ Reconcile.latestPeriodLines s nativeId service) :
    OwnBuckets nativeId service s ledger := by
  refine ⟨fun r hr hrep hlatest => honly r ((mem_lines hbooked).2 ⟨hr, hrep, hlatest⟩), ?_⟩
  intro r hr hown hlatest
  have hne : ownLines nativeId service s ledger ≠ [] :=
    latestOf_ne_nil (List.ne_nil_of_mem (mem_filter_ownRows.2 ⟨hr, hown⟩))
  obtain ⟨m, hm⟩ := List.exists_mem_of_ne_nil _ hne
  obtain ⟨hms, hmrep, _⟩ := (mem_lines hbooked).1 (hall m hm)
  have hmem : r ∈ ownLines nativeId service s ledger := by
    refine mem_ownLines.2 ⟨hr, hown, fun r' hr' hown' => ?_⟩
    exact Int.le_trans ((mem_ownLines.1 hm).2.2 r' hr' hown') (hlatest m hms hmrep)
  exact ((mem_lines hbooked).1 (hall r hmem)).2.1

end

/-- An insight that gets the FOCUS cost of its resource shows the cost of exactly that resource's
rows precisely when the charges the resource represents are its own. -/
theorem resource_cost_iff {lower : String → String} {fp : Arith} {s : DbSession} {ledger : Ledger}
    {ruleName : String} {i i' : InsightRow} (h : Ingested lower s.working ledger)
    (hi : i ∈ Insights.ofRule s.working ruleName)
    (hcontext : Reconcile.contextualized fp s.working ruleName i = some i') :
    i' ∈ (Reconcile.reconcileWithFocus fp s ruleName).working.insights ∧
    ∃ resource, i.resourceId.bind s.working.resources.get? = some resource ∧
      (ShowsOwnCost fp s.working ledger resource.nativeId (Reconcile.focusService ruleName)
        i'.payload ↔
      OwnBuckets resource.nativeId (Reconcile.focusService ruleName) s.working ledger) := by
  refine ⟨mem_reconcileWithFocus hi hcontext, ?_⟩
  have hbooked := h.booked
  generalize s.working = store at hcontext hbooked ⊢
  unfold Reconcile.contextualized at hcontext
  split at hcontext
  · cases hcontext
  · split at hcontext
    · cases hcontext
    · rename_i resource hresource
      refine ⟨resource, hresource, ?_⟩
      obtain ⟨fields, hfields, rfl⟩ := Option.map_eq_some_iff.1 hcontext
      generalize hservice : Reconcile.focusService ruleName = service at hfields ⊢
      constructor
      · rintro ⟨_, honly, hall⟩
        exact ownBuckets_of_lines hbooked honly hall
      · intro hbuckets
        have hne : Reconcile.latestPeriodLines store resource.nativeId service ≠ [] := by
          intro hnil
          rw [hnil] at hfields
          cases hfields
        obtain ⟨honly, hall⟩ := hbuckets.all hbooked hne
        refine ⟨?_, honly, hall⟩
        have hlines := lines_eq_ownLines hbooked honly hall
        rw [get?_context hfields, hlines]
        refine congrArg _ (normalised_congr fun r hr => ?_)
        rw [← hlines] at hr
        have hr' := (mem_lines hbooked).1 hr
        rw [(hbooked r hr'.1).amortizedCost, ownCost, ownRows,
          List.filter_eq_self.2 (honly r hr)]

/-! ## Two volumes of one service -/

def computeRow (volume : String) (cost : Rat) : RowCells where
  accountId := "123456789012"
  accountName := "shop"
  service := "Amazon Elastic Compute Cloud - Compute"
  region := some "eu-west-1"
  pricingCategory := some "Standard"
  periodStart := .ofYmd 2026 6 1
  periodEnd := .ofYmd 2026 6 30
  billedCost := cost
  amortizedCost := cost
  resourceId := some volume
  subAccountId := none
  tags := .empty
  billingCurrency := "USD"

def noMappings : ServiceCatalog := ⟨.empty, ServiceCatalog.named_empty⟩

def unattachedInsight : InsightRow where
  id := 0
  ruleName := "ebs_unattached"
  resourceId := some 0
  accountId := some 0
  severity := .warning
  title := "EBS vol-1 is unattached"
  payload := [("monthly_waste_usd", .int 10)]
  computedAt := 0
  ackStatus := none
  ackAt := none
  ackBy := none

/-- One account, the volume vol-1 and the insight about it. -/
def oneVolume : Store :=
  { Store.empty with
    accounts := Table.empty.put ⟨0, "123456789012", none⟩
    resources := Table.empty.put ⟨0, 0, "eu-west-1", "ebs_volume", "vol-1", 0, 0, none⟩
    insights := Table.empty.put unattachedInsight }

def ingestVolumes (file : FocusFile) : Option Store :=
  match ingestInto String.toLower noMappings oneVolume file "123456789012" none with
  | .error _ => none
  | .ok p => some p.1

def volumesLedger (file : FocusFile) : Ledger :=
  ledgerAfter String.toLower noMappings oneVolume (fun _ => []) file "123456789012" none

theorem ingestVolumes_ingested {file : FocusFile} {store : Store}
    (h : ingestVolumes file = some store) :
    Ingested String.toLower store (volumesLedger file) := by
  rw [ingestVolumes] at h
  split at h
  · cases h
  · rename_i p hp
    cases h
    exact .ingest (.start rfl) hp

def twoVolumes : FocusFile :=
  ⟨"aws", some 2, [.ok (computeRow "vol-1" 10), .ok (computeRow "vol-2" 20)]⟩

/-- 10 USD of vol-1 and 20 USD of vol-2 are one charge with the id of vol-1: the insight about
vol-1 shows 30 USD. -/
theorem neighbour_cost_shown : ∃ store i', ingestVolumes twoVolumes = some store ∧
    Reconcile.contextualized .exact store "ebs_unattached" unattachedInsight = some i' ∧
    ¬ ShowsOwnCost .exact store (volumesLedger twoVolumes) "vol-1"
      (Reconcile.focusService "ebs_unattached") i'.payload := by
  have h : (ingestVolumes twoVolumes).map (fun s =>
      ((Reconcile.contextualized .exact s "ebs_unattached" unattachedInsight).map fun i' =>
        Json.get? i'.payload "focus_resource_monthly_usd",
      (Reconcile.latestPeriodLines s "vol-1" (Reconcile.focusService "ebs_unattached")).flatMap
        fun r => (volumesLedger twoVolumes r.id).map (·.resourceId))) =
      some (some (some (.float (.finite 30))), [some "vol-1", some "vol-2"]) := by
    decide +kernel
  cases hrun : ingestVolumes twoVolumes with
  | none => rw [hrun] at h; cases h
  | some store =>
    rw [hrun, Option.map_some, Option.some.injEq, Prod.mk.injEq] at h
    cases hi : Reconcile.contextualized .exact store "ebs_unattached" unattachedInsight with
    | none => rw [hi] at h; cases h.1
    | some i' =>
      refine ⟨store, i', rfl, hi, fun hshows => ?_⟩
      have hmem : some "vol-2" ∈ (Reconcile.latestPeriodLines store "vol-1"
          (Reconcile.focusService "ebs_unattached")).flatMap
            fun r => (volumesLedger twoVolumes r.id).map (·.resourceId) := by
        rw [h.2]; simp
      obtain ⟨r, hr, hv⟩ := List.mem_flatMap.1 hmem
      obtain ⟨c, hc, hcv⟩ := List.mem_map.1 hv
      have hown := of_decide_eq_true (hshows.onlyOwn r hr c hc)
      rw [hcv] at hown
      exact absurd hown.1 (by decide)

def oneVolumeFile : FocusFile := ⟨"aws", some 1, [.ok (computeRow "vol-1" 10)]⟩

/-- Alone in its service, vol-1 shows its own 10 USD. -/
theorem lone_volume_shown : ∃ store i', ingestVolumes oneVolumeFile = some store ∧
    Reconcile.contextualized .exact store "ebs_unattached" unattachedInsight = some i' ∧
    ShowsOwnCost .exact store (volumesLedger oneVolumeFile) "vol-1"
      (Reconcile.focusService "ebs_unattached") i'.payload := by
  have h : (ingestVolumes oneVolumeFile).map (fun s =>
      ((Reconcile.contextualized .exact s "ebs_unattached" unattachedInsight).isSome,
      decide (unattachedInsight ∈ s.insights.rows),
      (s.resources.get? 0).map (·.nativeId))) = some (true, true, some "vol-1") := by
    decide +kernel
  have hcharges : (ingestVolumes oneVolumeFile).map (fun s =>
      s.focusCharges.rows.map fun r => (r.service, volumesLedger oneVolumeFile r.id)) =
      some [("Amazon Elastic Compute Cloud - Compute",
        [rowToCharge String.toLower noMappings "aws" (computeRow "vol-1" 10)])] := by
    decide +kernel
  cases hrun : ingestVolumes oneVolumeFile with
  | none => rw [hrun] at h; cases h
  | some store =>
    rw [hrun, Option.map_some, Option.some.injEq] at h hcharges
    rw [Prod.mk.injEq, Prod.mk.injEq] at h
    obtain ⟨hcontext, hinsight, hresource⟩ := h
    obtain ⟨i', hi⟩ := Option.isSome_iff_exists.1 hcontext
    refine ⟨store, i', rfl, hi, ?_⟩
    have hreached := ingestVolumes_ingested hrun
    generalize volumesLedger oneVolumeFile = ledger at hcharges hreached ⊢
    obtain ⟨_, resource, hres, hiff⟩ := resource_cost_iff (s := Session.begin store)
      hreached (List.mem_filter.2 ⟨of_decide_eq_true hinsight, by decide⟩) hi
    have hid : resource.nativeId = "vol-1" := by
      have hget : store.resources.get? 0 = some resource := hres
      rw [hget] at hresource
      exact Option.some.inj hresource
    rw [hid] at hiff
    have hrow : ∀ r ∈ store.focusCharges, r.service = "Amazon Elastic Compute Cloud - Compute" ∧
        ledger r.id = [rowToCharge String.toLower noMappings "aws" (computeRow "vol-1" 10)] := by
      intro r hr
      have hmem := List.mem_map_of_mem (f := fun r => (r.service, ledger r.id)) hr
      rw [hcharges, List.mem_singleton, Prod.mk.injEq] at hmem
      exact hmem
    refine hiff.2 ⟨fun r hr _ _ c hc => ?_, fun r hr _ _ => ?_⟩
    · rw [(hrow r hr).2, List.mem_singleton] at hc
      rw [hc]
      decide +kernel
    · rw [Represented, (hrow r hr).1, (hrow r hr).2]
      decide +kernel

end Focus

end Constat
