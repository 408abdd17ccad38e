import Constat.Focus.Ingest

/-!
# Focus.Refresh

The two branches of `upsert_aggregated`. An insert stamps the row with the time of the transaction,
the server default of `ingested_at`, a column that no other modelled function reads; an update
assigns the fields it names, which are neither `ingested_at` nor the native service name, and leaves
the tag rows alone when the aggregate has no tag dicts.

`refresh_iff`: after an upsert the bucket is stored as by an insert into an empty table exactly when
no row had its key, or the row that had it has the same native name and the same stamp, and is given
tag dicts or had no tag rows.
-/

namespace Constat

namespace Focus

/-- `upsertOne` with the `ingested_at` of the rows, by id. -/
def upsertStamped (now : Micros) (s : DbSession) (ingestedAt : Dict Nat Micros) (account : Uuid)
    (agg : AggregatedFocusCharge) : Except DbError (DbSession × Dict Nat Micros) :=
  match upsertOne s account agg with
  | .error e => .error e
  | .ok (s', true) => .ok (s', ingestedAt.set s.working.focusCharges.next now)
  | .ok (s', false) => .ok (s', ingestedAt)

/-- All that is stored for a key, but for the id: the row, its stamp and its tag rows. -/
def image (s : Store) (ingestedAt : Dict Nat Micros) (account : Uuid) (key : BucketKey) :
    Option (FocusChargeRow × Option Micros × List TagEntry) :=
  match matching s account key with
  | [r] => some ({ r with id := 0 }, ingestedAt.get? r.id, (tagRowsOfCharge s r.id).map tagEntry)
  | _ => none

/-- What an insert into an empty table stores. -/
def freshImage (now : Micros) (accounts : Table Account.id) (account : Uuid)
    (agg : AggregatedFocusCharge) : Option (FocusChargeRow × Option Micros × List TagEntry) :=
  match upsertStamped now (.begin { Store.empty with accounts := accounts }) .empty account agg with
  | .error _ => none
  | .ok (s, ingestedAt) => image s.working ingestedAt account agg.key

/-- The row an update would hit is what the insert would write. -/
structure UpToDate (now : Micros) (s : Store) (ingestedAt : Dict Nat Micros)
    (agg : AggregatedFocusCharge) (old : FocusChargeRow) : Prop where
  service : old.service = agg.service
  stamp : ingestedAt.get? old.id = some now
  tags : agg.perRowTagDicts ≠ [] ∨ tagRowsOfCharge s old.id = []

/-- The foreign key of `focus_charge_tags`. -/
def TagsOwned (s : Store) : Prop :=
  ∀ x ∈ s.focusChargeTags, ∃ r ∈ s.focusCharges, r.id = x.focusChargeId

theorem eq_singleton_or_nil {α : Type} {l : List α} {a : α} (hnd : l.Nodup)
    (h : ∀ x ∈ l, x = a) : l = [] ∨ l = [a] := by
  cases l with
  | nil => exact .inl rfl
  | cons x l =>
    have hx := h x List.mem_cons_self
    subst hx
    refine .inr ?_
    rw [List.nodup_cons] at hnd
    cases l with
    | nil => rfl
    | cons y l =>
      have hy := h y (List.mem_cons_of_mem _ List.mem_cons_self)
      exact absurd (hy ▸ List.mem_cons_self) hnd.1

theorem nodup_matching (s : Store) (account : Uuid) (key : BucketKey) :
    (matching s account key).Nodup :=
  (List.Nodup.of_map _ s.focusCharges.nodup).filter _

/-- The rows with the key once one row is put: that row, if it has the key. -/
theorem matching_put {s s' : Store} {account : Uuid} {key : BucketKey} {r : FocusChargeRow}
    (hput : s'.focusCharges = s.focusCharges.put r)
    (hother : ∀ x ∈ matching s account key, x.id = r.id) (hacc : r.accountId = account) :
    matching s' account key = if chargeKey r = key then [r] else [] := by
  have hall : ∀ x ∈ matching s' account key, x = r := by
    intro x hx
    obtain ⟨hmem, hxacc, hxkey⟩ := mem_matching.1 hx
    rw [hput, Table.mem_put] at hmem
    rcases hmem with rfl | ⟨hmem, hid⟩
    · rfl
    · exact absurd (hother x (mem_matching.2 ⟨hmem, hxacc, hxkey⟩)) hid
  have hin : chargeKey r = key ↔ r ∈ matching s' account key := by
    rw [mem_matching, hput]
    exact ⟨fun h => ⟨Table.mem_put_self _ _, hacc, h⟩, fun h => h.2.2⟩
  rcases eq_singleton_or_nil (nodup_matching s' account key) hall with hnil | hone
  · rw [hnil, if_neg]
    intro hkey
    have hmem := hin.1 hkey
    rw [hnil] at hmem
    cases hmem
  · rw [hone, if_pos (hin.2 (hone ▸ List.mem_singleton_self r))]

theorem focusCharges_writePerRowTags (s : DbSession) (id : Nat) (dicts : List TagDict)
    (costs : List (Rat × Rat)) :
    (writePerRowTags s id dicts costs).working.focusCharges = s.working.focusCharges :=
  (writePerRowTags_frame s id dicts costs).1

/-- The tag rows of a charge after its upsert. -/
theorem tags_writePerRowTags (s : DbSession) (id : Nat) (dicts : List TagDict)
    (costs : List (Rat × Rat)) :
    (tagRowsOfCharge (writePerRowTags s id dicts costs).working id).map tagEntry =
      if dicts = [] then (tagRowsOfCharge s.working id).map tagEntry
      else tagEntries 0 dicts costs := by
  split
  · rename_i hnil
    rw [writePerRowTags, if_pos (by rw [hnil]; rfl)]
  · rename_i hne
    exact (writePerRowTags_spec s id costs hne).1

/-- The image of an inserted bucket. -/
theorem image_inserted (now : Micros) {s : DbSession} (ingestedAt : Dict Nat Micros)
    {account : Uuid} {agg : AggregatedFocusCharge} (howned : TagsOwned s.working)
    (hnone : matching s.working account agg.key = []) :
    image (writePerRowTags (s.write (.focusCharge (newCharge s.working account agg)))
        (newCharge s.working account agg).id agg.perRowTagDicts agg.perRowCosts).working
      (ingestedAt.set s.working.focusCharges.next now) account agg.key =
      some ({ newCharge s.working account agg with id := 0 }, some now,
        tagEntries 0 agg.perRowTagDicts agg.perRowCosts) := by
  have hput := focusCharges_writePerRowTags
    (s.write (.focusCharge (newCharge s.working account agg))) (newCharge s.working account agg).id
    agg.perRowTagDicts agg.perRowCosts
  have htags := tags_writePerRowTags (s.write (.focusCharge (newCharge s.working account agg)))
    (newCharge s.working account agg).id agg.perRowTagDicts agg.perRowCosts
  have hbefore : tagRowsOfCharge (s.write (.focusCharge (newCharge s.working account agg))).working
      (newCharge s.working account agg).id = [] := by
    rw [tagRowsOfCharge, List.filter_eq_nil_iff]
    intro x hx hid
    obtain ⟨r, hr, hrid⟩ := howned x hx
    exact Table.fresh_next hr (hrid.trans (of_decide_eq_true hid))
  have hmatching : matching (writePerRowTags
      (s.write (.focusCharge (newCharge s.working account agg)))
      (newCharge s.working account agg).id agg.perRowTagDicts agg.perRowCosts).working account
        agg.key = [newCharge s.working account agg] := by
    have hacc : (newCharge s.working account agg).accountId = account := rfl
    have hsame : ∀ x ∈ matching s.working account agg.key,
        x.id = (newCharge s.working account agg).id := by
      intro x hx
      rw [hnone] at hx
      cases hx
    exact (matching_put hput hsame hacc).trans (if_pos rfl)
  simp only [image, hmatching, htags, hbefore]
  refine congrArg some (Prod.ext rfl (Prod.ext ?_ ?_))
  · exact (Dict.get?_set _ _ _ _).trans (if_pos rfl)
  · simp only
    split
    · rename_i hnil
      rw [hnil]
      rfl
    · rfl

theorem freshImage_eq {now : Micros} {accounts : Table Account.id} {account : Uuid}
    {agg : AggregatedFocusCharge} (haccount : (accounts.get? account).isSome = true) :
    freshImage now accounts account agg =
      some ({ newCharge .empty account agg with id := 0 }, some now,
        tagEntries 0 agg.perRowTagDicts agg.perRowCosts) := by
  have hnone : matching (Session.begin { Store.empty with accounts := accounts } : DbSession).working
      account agg.key = [] := rfl
  have himage := image_inserted now .empty (by intro x hx; cases hx) hnone
  simp only [freshImage, upsertStamped, upsertOne, Session.begin_working, haccount, if_true]
  exact himage

/-- The image of an updated bucket, if it still has the key. -/
theorem image_updated {s : DbSession} {ingestedAt : Dict Nat Micros} {account : Uuid}
    {agg : AggregatedFocusCharge} {old : FocusChargeRow}
    (hone : matching s.working account agg.key = [old]) :
    image (writePerRowTags (s.write (.focusCharge (updatedCharge old agg))) old.id
        agg.perRowTagDicts agg.perRowCosts).working ingestedAt account agg.key =
      if chargeKey (updatedCharge old agg) = agg.key then
        some ({ updatedCharge old agg with id := 0 }, ingestedAt.get? old.id,
          if agg.perRowTagDicts = [] then (tagRowsOfCharge s.working old.id).map tagEntry
          else tagEntries 0 agg.perRowTagDicts agg.perRowCosts)
      else none := by
  obtain ⟨_, hacc, _⟩ := mem_matching.1 (hone ▸ List.mem_singleton_self old)
  have hput := focusCharges_writePerRowTags (s.write (.focusCharge (updatedCharge old agg))) old.id
    agg.perRowTagDicts agg.perRowCosts
  have hsame : ∀ x ∈ matching s.working account agg.key, x.id = (updatedCharge old agg).id := by
    intro x hx
    rw [hone] at hx
    rw [List.mem_singleton.1 hx]
    rfl
  have hmatching := matching_put hput hsame hacc
  have htags := tags_writePerRowTags (s.write (.focusCharge (updatedCharge old agg))) old.id
    agg.perRowTagDicts agg.perRowCosts
  simp only [image, hmatching]
  split
  · rename_i r hr
    split at hr
    · rename_i hkey
      cases hr
      rw [if_pos hkey]
      exact congrArg (fun l => some ({ updatedCharge old agg with id := 0 },
        ingestedAt.get? old.id, l)) htags
    · cases hr
  · rename_i hnot
    rw [if_neg]
    intro hkey
    exact hnot _ (if_pos hkey)

/-- An updated row is the inserted one when their native names agree. -/
theorem updatedCharge_eq_iff {s : Store} {account : Uuid} {agg : AggregatedFocusCharge}
    {old : FocusChargeRow} (hacc : old.accountId = account) (hkey : chargeKey old = agg.key) :
    { updatedCharge old agg with id := 0 } = { newCharge s account agg with id := 0 } ↔
      old.service = agg.service := by
  have hstart : old.periodStart = agg.periodStart := congrArg (·.2.1) hkey
  have hend : old.periodEnd = agg.periodEnd := congrArg (·.2.2) hkey
  constructor
  · intro heq
    exact congrArg FocusChargeRow.service heq
  · intro hservice
    simp [updatedCharge, newCharge, hservice, hacc, hstart, hend]

/-- After an upsert the bucket is stored as an insert would have stored it exactly when the row it
hit, if any, was up to date in the fields the update does not assign. -/
theorem refresh_iff {now : Micros} {s s' : DbSession} {ingestedAt ingestedAt' : Dict Nat Micros}
    {account : Uuid} {agg : AggregatedFocusCharge} (howned : TagsOwned s.working)
    (haccount : (s.working.accounts.get? account).isSome = true)
    (h : upsertStamped now s ingestedAt account agg = .ok (s', ingestedAt')) :
    image s'.working ingestedAt' account agg.key =
        freshImage now s.working.accounts account agg ↔
      ∀ old ∈ matching s.working account agg.key, UpToDate now s.working ingestedAt agg old := by
  rw [freshImage_eq haccount]
  simp only [upsertStamped, upsertOne] at h
  cases hmatching : matching s.working account agg.key with
  | nil =>
    simp only [hmatching, haccount, if_true] at h
    cases h
    rw [image_inserted now ingestedAt howned hmatching]
    simp [newCharge]
  | cons old rest =>
    cases rest with
    | cons x rest => simp [hmatching] at h
    | nil =>
      simp only [hmatching] at h
      cases h
      obtain ⟨_, hacc, hkey⟩ := mem_matching.1 (hmatching ▸ List.mem_singleton_self old)
      have hrow := updatedCharge_eq_iff (s := .empty) hacc hkey
      have hkept : old.service = agg.service → chargeKey (updatedCharge old agg) = agg.key := by
        intro hservice
        have hperiod : (old.periodStart, old.periodEnd) = (agg.periodStart, agg.periodEnd) :=
          congrArg Prod.snd hkey
        refine Prod.ext ?_ hperiod
        change agg.serviceCanonical.getD old.service = agg.serviceCanonical.getD agg.service
        rw [hservice]
      rw [image_updated hmatching, List.forall_mem_singleton]
      constructor
      · intro himage
        split at himage
        · rw [Option.some.injEq, Prod.mk.injEq, Prod.mk.injEq] at himage
          obtain ⟨hrows, hstamp, htags⟩ := himage
          refine ⟨hrow.1 hrows, hstamp, ?_⟩
          by_cases hdicts : agg.perRowTagDicts = []
          · rw [if_pos hdicts, hdicts] at htags
            exact .inr (List.map_eq_nil_iff.1 htags)
          · exact .inl hdicts
        · cases himage
      · rintro ⟨hservice, hstamp, htags⟩
        rw [if_pos (hkept hservice), hrow.2 hservice, hstamp]
        rcases htags with hdicts | hnone
        · rw [if_neg hdicts]
        · rw [hnone]
          split
          · rename_i hnil
            rw [hnil]
            rfl
          · rfl

/-! ## A second ingest of one bucket -/

def monthly (service : String) (dicts : List TagDict) : AggregatedFocusCharge where
  service := service
  serviceCanonical := some "managed_postgres"
  periodStart := .ofYmd 2026 1 1
  periodEnd := .ofYmd 2026 2 1
  region := none
  pricingCategory := none
  billedCost := 100
  amortizedCost := 100
  resourceId := none
  subAccountId := none
  tags := []
  chargeCount := 1
  perRowTagDicts := dicts
  perRowCosts := dicts.map fun _ => (100, 100)
  billingCurrency := "USD"

/-- The store after one upsert at `now`, and the stamps. -/
def firstIngest (agg : AggregatedFocusCharge) (now : Micros) :
    Option (DbSession × Dict Nat Micros) :=
  (upsertStamped now (.begin (applyWrite .empty (.account ⟨0, "123456789012", none⟩))) .empty 0
    agg).toOption

/-- What the second upsert stores under the key, and what an insert would store. -/
def secondIngest (agg later : AggregatedFocusCharge) (now then_ : Micros) :
    Option (Option (FocusChargeRow × Option Micros × List TagEntry) ×
      Option (FocusChargeRow × Option Micros × List TagEntry)) :=
  (firstIngest agg now).bind fun (s, ingestedAt) =>
    (upsertStamped then_ s ingestedAt 0 later).toOption.map fun (s', ingestedAt') =>
      (image s'.working ingestedAt' 0 later.key, freshImage then_ s.working.accounts 0 later)

/-- A month later the bucket comes from Azure and without tags: the row keeps the AWS name, its
first stamp and the old tag row. -/
theorem stale_fields_survive :
    ((secondIngest (monthly "Amazon RDS" [Dict.empty.set "App" "web"])
      (monthly "Azure Database for PostgreSQL" []) 0 5).any fun p =>
        p.1.map (fun i => (i.1.service, i.2.1, i.2.2.map (·.value))) =
            some ("Amazon RDS", some 0, ["web"]) ∧
          p.2.map (fun i => (i.1.service, i.2.1, i.2.2.map (·.value))) =
            some ("Azure Database for PostgreSQL", some 5, []) ∧ p.1 ≠ p.2) = true := by
  decide +kernel

/-- The same bucket with another tag in the same transaction. -/
theorem same_instant_refreshes : ∃ s ingestedAt s' ingestedAt',
    firstIngest (monthly "Amazon RDS" [Dict.empty.set "App" "web"]) 0 = some (s, ingestedAt) ∧
      upsertStamped 0 s ingestedAt 0 (monthly "Amazon RDS" [Dict.empty.set "App" "api"]) =
        .ok (s', ingestedAt') ∧
      image s'.working ingestedAt' 0 (monthly "Amazon RDS" [Dict.empty.set "App" "api"]).key =
        freshImage 0 s.working.accounts 0 (monthly "Amazon RDS" [Dict.empty.set "App" "api"]) := by
  have hchecks : ((firstIngest (monthly "Amazon RDS" [Dict.empty.set "App" "web"]) 0).any fun p =>
      p.1.working.focusChargeTags.rows.all (fun x =>
        p.1.working.focusCharges.rows.any fun r => r.id = x.focusChargeId) &&
      (p.1.working.accounts.get? 0).isSome &&
      (matching p.1.working 0 (monthly "Amazon RDS" []).key).all (fun old =>
        old.service = "Amazon RDS" ∧ p.2.get? old.id = some 0) &&
      (upsertStamped 0 p.1 p.2 0 (monthly "Amazon RDS" [Dict.empty.set "App" "api"])).toOption.isSome)
      = true := by decide +kernel
  cases hfirst : firstIngest (monthly "Amazon RDS" [Dict.empty.set "App" "web"]) 0 with
  | none => simp [hfirst] at hchecks
  | some p =>
    obtain ⟨s, ingestedAt⟩ := p
    simp only [hfirst, Option.any_some, Bool.and_eq_true] at hchecks
    obtain ⟨⟨⟨howned, haccount⟩, hold⟩, hok⟩ := hchecks
    cases hsecond : upsertStamped 0 s ingestedAt 0
        (monthly "Amazon RDS" [Dict.empty.set "App" "api"]) with
    | error e => simp [hsecond, Except.toOption] at hok
    | ok p =>
      obtain ⟨s', ingestedAt'⟩ := p
      refine ⟨s, ingestedAt, s', ingestedAt', rfl, hsecond, ?_⟩
      refine (refresh_iff (fun x hx => ?_) haccount hsecond).2 fun old hmem => ?_
      · obtain ⟨r, hr, hid⟩ := List.any_eq_true.1 (List.all_eq_true.1 howned x hx)
        exact ⟨r, hr, of_decide_eq_true hid⟩
      · obtain ⟨hservice, hstamp⟩ := of_decide_eq_true (List.all_eq_true.1 hold old hmem)
        exact ⟨hservice, hstamp, .inl (by simp [monthly])⟩

end Focus

end Constat
