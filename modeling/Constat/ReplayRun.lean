import Constat.ObservedFacts

/-!
# ReplayRun

A replay applies the log of the observations to the facts, in the order of `observed_at`
(`Replayed`). After a history of scans whose observations of a resource are in that order, the facts
that were wiped come back, and a second replay finds them as they are (`replay_reproduces`).
-/

namespace Constat

open Collectors Collector

namespace ReplayFacts

/-! ## One observation -/

/-- The facts of an observation of the source are upserted. -/
theorem replayed_ok {s : DbSession} {o : ObservationRow} (hsource : o.source = Rds.sourceName)
    (howned : Owned s.working o)
    (hone : ∀ k, k.source = Rds.sourceName → ∃ v, Facts.Shows s.working.facts k v) :
    ∃ facts s' counts, translate s.working.resources supportedSources o = some facts ∧
      (facts.map Facts.keyOf).Nodup ∧ (∀ f ∈ facts, f.source = Rds.sourceName) ∧
      (∀ f ∈ facts, ∃ row, Facts.RowAt s.working.facts (Facts.keyOf f) row) ∧
      Facts.upsertFacts s facts o.sourceRunId = .ok (s', counts) := by
  obtain ⟨r, hr, haccount⟩ := howned
  have hjob : rds ∈ jobRegistry := List.mem_cons_self
  set db := payloadToDb (payloadOf o.payload) r.region
  obtain ⟨hfacts, hkeys⟩ := job_facts_owned hjob o.resourceId r.accountId db o.observedAt
  have hsources : ∀ f ∈ rds.facts o.resourceId r.accountId db o.observedAt,
      f.source = Rds.sourceName := (job_sources hjob).2.1 _ _ _ _
  have hrows : ∀ f ∈ rds.facts o.resourceId r.accountId db o.observedAt,
      ∃ row, Facts.RowAt s.working.facts (Facts.keyOf f) row := by
    intro f hf
    obtain ⟨_, row, hrow, _⟩ := hone (Facts.keyOf f) (hsources f hf)
    exact ⟨row, hrow⟩
  obtain ⟨s', counts, hok⟩ := Facts.upsertFacts_ok o.sourceRunId
    (fun f hf id hid => by
      rw [(hfacts f hf).1] at hid
      cases hid
      exact Option.isSome_iff_exists.2 ⟨r, hr⟩)
    (fun f hf id hid => by
      rw [(hfacts f hf).2] at hid
      cases hid
      exact haccount) hkeys hrows
  exact ⟨_, s', counts, translate_found hsource hr, hkeys, hsources, hrows, hok⟩

/-! ## A log applied -/

/-- `t'` is `t` with the log applied to its facts. -/
structure Replayed (t t' : Store) (log : List (Facts.FactKey × Facts.Shown)) : Prop where
  keys : ∀ e ∈ log, e.1.source = Rds.sourceName
  rest : t' = { t with facts := t'.facts }
  shows : ∀ k v, k.source = Rds.sourceName → Facts.Shows t.facts k v →
    Facts.Shows t'.facts k ((Latest.latest log k).or v)
  others : ∀ row, row.source ≠ Rds.sourceName → (row ∈ t'.facts ↔ row ∈ t.facts)
  revised : (∀ e ∈ log, ∃ row, Facts.RowAt t.facts e.1 (some row)) →
    (t'.facts.rows.map FactRow.id = t.facts.rows.map FactRow.id ∧ t'.facts.next = t.facts.next) ∧
      ∀ row ∈ t'.facts, ∃ old ∈ t.facts, Facts.Revised old row

theorem Replayed.refl (t : Store) : Replayed t t [] where
  keys := List.forall_mem_nil _
  rest := rfl
  shows := fun _ _ _ h => h
  others := fun _ _ => Iff.rfl
  revised := fun _ => ⟨⟨rfl, rfl⟩, fun row hrow => ⟨row, hrow, rfl, rfl, rfl⟩⟩

theorem Replayed.resources {t t' : Store} {log : List (Facts.FactKey × Facts.Shown)}
    (h : Replayed t t' log) : t'.resources = t.resources := by rw [h.rest]

theorem Replayed.accounts {t t' : Store} {log : List (Facts.FactKey × Facts.Shown)}
    (h : Replayed t t' log) : t'.accounts = t.accounts := by rw [h.rest]

theorem Replayed.observations {t t' : Store} {log : List (Facts.FactKey × Facts.Shown)}
    (h : Replayed t t' log) : t'.observations = t.observations := by rw [h.rest]

/-- A row that a log has written over is still there. -/
theorem Replayed.rowAt {t t' : Store} {log : List (Facts.FactKey × Facts.Shown)}
    (h : Replayed t t' log) {k : Facts.FactKey} (hk : k.source = Rds.sourceName) {row : FactRow}
    (hrow : Facts.RowAt t.facts k (some row)) :
    ∃ row', Facts.RowAt t'.facts k (some row') := by
  obtain ⟨o, ho, hshown⟩ := h.shows k _ hk ⟨some row, hrow, rfl⟩
  cases o with
  | some row' => exact ⟨row', ho⟩
  | none => cases hlatest : Latest.latest log k <;> rw [hlatest] at hshown <;> cases hshown

theorem Replayed.trans {t t' t'' : Store} {log log' : List (Facts.FactKey × Facts.Shown)}
    (h : Replayed t t' log) (h' : Replayed t' t'' log') : Replayed t t'' (log ++ log') where
  keys := List.forall_mem_append.2 ⟨h.keys, h'.keys⟩
  rest := h'.rest.trans (congrArg (fun u : Store => { u with facts := t''.facts }) h.rest)
  shows := by
    intro k v hk hv
    rw [Latest.latest_append, Option.or_assoc]
    exact h'.shows k _ hk (h.shows k v hk hv)
  others := fun row hrow => (h'.others row hrow).trans (h.others row hrow)
  revised := by
    intro hrows
    rw [List.forall_mem_append] at hrows
    obtain ⟨⟨hids, hnext⟩, hold⟩ := h.revised hrows.1
    have hrows' : ∀ e ∈ log', ∃ row, Facts.RowAt t'.facts e.1 (some row) := by
      intro e he
      obtain ⟨row, hrow⟩ := hrows.2 e he
      exact h.rowAt (h'.keys e he) hrow
    obtain ⟨⟨hids', hnext'⟩, hold'⟩ := h'.revised hrows'
    refine ⟨⟨hids'.trans hids, hnext'.trans hnext⟩, fun row hrow => ?_⟩
    obtain ⟨row', hrow', hrevised'⟩ := hold' row hrow
    obtain ⟨old, hmem, hrevised⟩ := hold row' hrow'
    exact ⟨old, hmem, hrevised.trans hrevised'⟩

theorem Replayed.upserted {t : Store} {facts : List Fact} (run : Option Uuid)
    (hkeys : (facts.map Facts.keyOf).Nodup) (hsources : ∀ f ∈ facts, f.source = Rds.sourceName)
    (hone : ∀ f ∈ facts, ∃ row, Facts.RowAt t.facts (Facts.keyOf f) row) :
    Replayed t (Facts.upserted t facts run) (Facts.entries facts run) where
  keys := by
    intro e he
    obtain ⟨f, hf, rfl⟩ := List.mem_map.1 he
    exact hsources f hf
  rest := rfl
  shows := fun _ _ _ hv => Facts.shows_upserted hkeys hone hv
  others := by
    intro row hrow
    refine Facts.mem_upserted_other fun f hf hkey => hrow ?_
    have hsource : f.source = row.source := congrArg Facts.FactKey.source hkey
    exact hsource.symm.trans (hsources f hf)
  revised := by
    intro hrows
    refine Facts.upserted_revised fun f hf => ?_
    exact hrows _ (List.mem_map.2 ⟨f, hf, rfl⟩)

/-! ## The loop -/

/-- Observations that are owned, each met once, are all translated and upserted. -/
theorem replayRows {rows : List ObservationRow} {st : ReplayState}
    (hnodup : (rows.map ObservationRow.id).Nodup) (hseen : ∀ o ∈ rows, o.id ∉ st.seen)
    (howned : ∀ o ∈ rows, o.source = Rds.sourceName → Owned st.session.working o)
    (hone : ∀ k, k.source = Rds.sourceName → ∃ v, Facts.Shows st.session.working.facts k v) :
    ∃ st', rows.foldlM (replayOne supportedSources false) st = .ok st' ∧
      Replayed st.session.working st'.session.working
        (log st.session.working.resources rows) := by
  induction rows generalizing st with
  | nil => exact ⟨st, rfl, Replayed.refl _⟩
  | cons o rows ih =>
    rw [List.map_cons, List.nodup_cons] at hnodup
    rw [List.forall_mem_cons] at hseen howned
    have hstep : ∃ st₁, replayOne supportedSources false st o = .ok st₁ ∧
        st₁.seen = st.seen ++ [o.id] ∧ Replayed st.session.working st₁.session.working
          (entriesOf st.session.working.resources o) := by
      by_cases hsource : o.source = Rds.sourceName
      · obtain ⟨facts, s', counts, htranslate, hkeys, hsources, hrows, hok⟩ :=
          replayed_ok hsource (howned.1 hsource) hone
        have hworking := Facts.upsertFacts_working hok
        refine ⟨⟨s', st.seen ++ [o.id], st.factsUpserted + facts.length, st.skipped⟩, ?_, rfl, ?_⟩
        · simp [replayOne, hseen.1, htranslate, hok]
        · have hentries : entriesOf st.session.working.resources o =
              Facts.entries facts o.sourceRunId := by
            rw [entriesOf, htranslate]
            rfl
          rw [hentries]
          show Replayed st.session.working s'.working (Facts.entries facts o.sourceRunId)
          rw [hworking]
          exact Replayed.upserted _ hkeys hsources hrows
      · refine ⟨⟨st.session, st.seen ++ [o.id], st.factsUpserted, st.skipped + 1⟩, ?_, rfl, ?_⟩
        · simp [replayOne, hseen.1, translate_other hsource]
        · rw [entriesOf_other hsource]
          exact Replayed.refl _
    obtain ⟨st₁, hok, hseen₁, hreplayed⟩ := hstep
    have hseen' : ∀ o' ∈ rows, o'.id ∉ st₁.seen := by
      intro o' ho'
      rw [hseen₁, List.mem_append, List.mem_singleton, not_or]
      exact ⟨hseen.2 o' ho', fun he => hnodup.1 (List.mem_map.2 ⟨o', ho', he⟩)⟩
    obtain ⟨st', hrest, hreplayed'⟩ := ih hnodup.2 hseen'
      (fun o' ho' hs => (howned.2 o' ho' hs).held (Holds.of_eq hreplayed.resources
        hreplayed.accounts))
      (fun k hk => by
        obtain ⟨v, hv⟩ := hone k hk
        exact ⟨_, hreplayed.shows k v hk hv⟩)
    rw [hreplayed.resources] at hreplayed'
    exact ⟨st', Loop.foldlM_cons_ok.2 ⟨st₁, hok, hrest⟩, hreplayed.trans hreplayed'⟩

theorem selected_everything (t : Store) : selected t everything = t.observations.rows := by
  simp [selected, everything]

theorem replayStep_replayed {t : Store} {rows : List ObservationRow}
    (hrows : Answers t everything rows)
    (howned : ∀ o ∈ t.observations, o.source = Rds.sourceName → Owned t o)
    (hone : ∀ k, k.source = Rds.sourceName → ∃ v, Facts.Shows t.facts k v) :
    ∃ t' stats, replayStep everything rows t = .ok (t', stats) ∧
      Replayed t t' (log t.resources rows) := by
  have hperm : rows.Perm t.observations.rows := selected_everything t ▸ hrows.1
  have hnodup : (rows.map ObservationRow.id).Nodup :=
    (hperm.map ObservationRow.id).nodup_iff.2 t.observations.nodup
  have hreplay : ∃ st, rows.foldlM (replayOne supportedSources false) ⟨Session.begin t, [], 0, 0⟩ =
      .ok st ∧ Replayed t st.session.working (log t.resources rows) :=
    replayRows hnodup (fun _ _ h => by cases h) (fun o ho => howned o (hperm.mem_iff.1 ho)) hone
  obtain ⟨st, hst, hreplayed⟩ := hreplay
  have hsources : (sourcesOf everything).filter (fun source => source ∉ supportedSources) = [] := by
    simp [sourcesOf, everything]
  have hdry : everything.dryRun = false := rfl
  refine ⟨st.session.working, ⟨rows.length, st.factsUpserted, st.skipped⟩, ?_, hreplayed⟩
  have hfold : rows.foldlM (replayOne (sourcesOf everything) false)
      ⟨Session.begin t, [], 0, 0⟩ = .ok st := hst
  simp only [replayStep, replayObservations, hsources, hdry, hfold, ne_eq, not_true_eq_false,
    if_false, Bool.false_eq_true, Session.close_commit]

/-! ## The order of the observations -/

/-- The observations of a database were written in the order of `observed_at`. -/
def Increasing (t : Store) : Prop :=
  ∀ id, (t.observations.rows.filter fun o => o.source = Rds.sourceName ∧ o.resourceId = id).Pairwise
    fun o o' => o.observedAt < o'.observedAt

theorem entriesOf_about {resources : Table Resource.id} {o : ObservationRow}
    {e : Facts.FactKey × Facts.Shown} (he : e ∈ entriesOf resources o) :
    o.source = Rds.sourceName ∧ e.1.resourceId = some o.resourceId := by
  by_cases hsource : o.source = Rds.sourceName
  · refine ⟨hsource, ?_⟩
    cases hr : resources.get? o.resourceId with
    | none =>
      simp [entriesOf, translate, supportedSources, hsource, hr] at he
    | some r =>
      rw [entriesOf, translate_found hsource hr] at he
      obtain ⟨f, hf, rfl⟩ := List.mem_map.1 he
      have hjob : rds ∈ jobRegistry := List.mem_cons_self
      exact ((job_facts_owned hjob o.resourceId r.accountId _ o.observedAt).1 f hf).1
  · rw [entriesOf_other hsource] at he
    cases he

/-- The order in which a replay reads the observations leaves the last one of each key. -/
theorem latest_log {t : Store} (hincreasing : Increasing t) {rows : List ObservationRow}
    (hrows : Answers t everything rows) (k : Facts.FactKey) :
    Latest.latest (log t.resources rows) k =
      Latest.latest (log t.resources t.observations.rows) k := by
  have hperm : rows.Perm t.observations.rows := selected_everything t ▸ hrows.1
  cases hid : k.resourceId with
  | none =>
    have hnone : ∀ os : List ObservationRow, Latest.latest (log t.resources os) k = none := by
      intro os
      refine Latest.latest_eq_none fun e he hkey => ?_
      obtain ⟨o, _, he⟩ := List.mem_flatMap.1 he
      have habout := (entriesOf_about he).2
      rw [hkey, hid] at habout
      cases habout
    rw [hnone, hnone]
  | some id =>
    let p : ObservationRow → Bool := fun o => o.source = Rds.sourceName ∧ o.resourceId = id
    have hother : ∀ o, p o = false → ∀ e ∈ entriesOf t.resources o, e.1 ≠ k := by
      intro o ho e he hkey
      obtain ⟨hsource, habout⟩ := entriesOf_about he
      rw [hkey, hid] at habout
      exact of_decide_eq_false ho ⟨hsource, (Option.some.inj habout).symm⟩
    have hfilter : rows.filter p = t.observations.rows.filter p :=
      Latest.filter_eq_of_sorted p hperm (hincreasing id) hrows.2
    calc Latest.latest (log t.resources rows) k
        = Latest.latest ((rows.filter p).flatMap (entriesOf t.resources)) k :=
          (Latest.latest_flatMap_filter fun o _ => hother o).symm
      _ = Latest.latest ((t.observations.rows.filter p).flatMap (entriesOf t.resources)) k := by
          rw [hfilter]
      _ = Latest.latest (log t.resources t.observations.rows) k :=
          Latest.latest_flatMap_filter fun o _ => hother o

/-! ## The live facts -/

/-- The RDS facts deleted. -/
def wiped (t : Store) : Store :=
  { t with facts := t.facts.deleteWhere fun row => row.source = Rds.sourceName }

/-- The RDS facts of a store, without the ids of their rows. -/
def live (t : Store) : List (Facts.FactKey × Facts.Shown) :=
  (t.facts.rows.filter fun row => row.source = Rds.sourceName).map Facts.entryOf

theorem mem_live {t : Store} (hone : ∀ k, k.source = Rds.sourceName → ∃ v, Facts.Shows t.facts k v)
    {e : Facts.FactKey × Facts.Shown} :
    e ∈ live t ↔ e.1.source = Rds.sourceName ∧ Facts.Shows t.facts e.1 (some e.2) := by
  simp only [live, List.mem_map, List.mem_filter, decide_eq_true_eq]
  constructor
  · rintro ⟨row, ⟨hrow, hsource⟩, rfl⟩
    obtain ⟨_, o, ho, _⟩ := hone (Facts.keyOfRow row) hsource
    exact ⟨hsource, o, ho, congrArg (Option.map Facts.shown) ((ho row).1 ⟨hrow, rfl⟩)⟩
  · rintro ⟨hsource, o, ho, hshown⟩
    obtain ⟨row, rfl, hvalue⟩ := Option.map_eq_some_iff.1 hshown
    obtain ⟨hrow, hkey⟩ := (ho row).2 rfl
    have hrds : row.source = e.1.source := congrArg Facts.FactKey.source hkey
    exact ⟨row, ⟨hrow, hrds.trans hsource⟩, Prod.ext hkey hvalue⟩

theorem nodup_live {t : Store}
    (hone : ∀ k, k.source = Rds.sourceName → ∃ v, Facts.Shows t.facts k v) : (live t).Nodup := by
  refine List.Nodup.map_on ?_ ((List.Nodup.of_map FactRow.id t.facts.nodup).filter _)
  intro row hrow row' hrow' he
  obtain ⟨hmem, hsource⟩ := List.mem_filter.1 hrow
  have hmem' := List.mem_of_mem_filter hrow'
  have hkey : Facts.keyOfRow row' = Facts.keyOfRow row := (congrArg Prod.fst he).symm
  obtain ⟨_, o, ho, _⟩ := hone (Facts.keyOfRow row) (of_decide_eq_true hsource)
  have hrow₀ := (ho row).1 ⟨hmem, rfl⟩
  exact Option.some.inj (hrow₀.symm.trans ((ho row').1 ⟨hmem', hkey⟩))

/-- Stores that show the same for every key have the same live facts. -/
theorem live_perm {t t' : Store}
    (h : ∀ k, k.source = Rds.sourceName → ∃ v, Facts.Shows t.facts k v ∧ Facts.Shows t'.facts k v) :
    (live t').Perm (live t) := by
  have hone : ∀ k, k.source = Rds.sourceName → ∃ v, Facts.Shows t.facts k v := fun k hk => by
    obtain ⟨v, hv, _⟩ := h k hk
    exact ⟨v, hv⟩
  have hone' : ∀ k, k.source = Rds.sourceName → ∃ v, Facts.Shows t'.facts k v := fun k hk => by
    obtain ⟨v, _, hv⟩ := h k hk
    exact ⟨v, hv⟩
  rw [List.perm_ext_iff_of_nodup (nodup_live hone') (nodup_live hone)]
  intro e
  rw [mem_live hone, mem_live hone']
  refine and_congr_right fun hk => ?_
  obtain ⟨v, hv, hv'⟩ := h e.1 hk
  constructor
  · intro he
    rw [he.unique hv']
    exact hv
  · intro he
    rw [he.unique hv]
    exact hv'

theorem shows_wiped (t : Store) {k : Facts.FactKey} (hk : k.source = Rds.sourceName) :
    Facts.Shows (wiped t).facts k none := by
  refine ⟨none, Facts.rowAt_none.2 fun row hrow hkey => ?_, rfl⟩
  have hother := of_decide_eq_false (Table.mem_deleteWhere.1 hrow).2
  have hsource : row.source = k.source := congrArg Facts.FactKey.source hkey
  exact hother (hsource.trans hk)

/-! ## The two replays -/

/-- `t₁` is `t` with its RDS facts written anew. -/
structure Reproduced (t t₁ : Store) : Prop where
  live : (live t₁).Perm (live t)
  others : ∀ row, row.source ≠ Rds.sourceName → (row ∈ t₁.facts ↔ row ∈ t.facts)
  rest : { t₁ with facts := t.facts } = t

/-- A store shows what the log of its observations says, and only that. -/
theorem replay_again {t : Store} (hfaithful : Faithful t) (hincreasing : Increasing t)
    {rows : List ObservationRow} (hrows : Answers t everything rows) :
    ∃ stats, replayStep everything rows t = .ok (t, stats) := by
  obtain ⟨t', stats, hok, h⟩ := replayStep_replayed hrows hfaithful.owned
    fun k hk => ⟨_, hfaithful.shows k hk⟩
  have hshows : ∀ k, k.source = Rds.sourceName →
      Facts.Shows t'.facts k (Latest.latest (log t.resources t.observations.rows) k) := by
    intro k hk
    have hv := h.shows k _ hk (hfaithful.shows k hk)
    rw [latest_log hincreasing hrows] at hv
    cases hlatest : Latest.latest (log t.resources t.observations.rows) k with
    | none => rwa [hlatest] at hv
    | some v => rwa [hlatest] at hv
  have hpresent : ∀ e ∈ log t.resources rows, ∃ row, Facts.RowAt t.facts e.1 (some row) := by
    intro e he
    obtain ⟨v, hv⟩ := Latest.exists_latest he
    obtain ⟨o, ho, hshown⟩ := hfaithful.shows e.1 (h.keys e he)
    rw [← latest_log hincreasing hrows, hv] at hshown
    obtain ⟨row, rfl, _⟩ := Option.map_eq_some_iff.1 hshown
    exact ⟨row, ho⟩
  obtain ⟨⟨hids, hnext⟩, hold⟩ := h.revised hpresent
  have hfacts : t'.facts = t.facts := by
    refine Table.eq_of_keys hids hnext fun row hrow => ?_
    by_cases hsource : row.source = Rds.sourceName
    · obtain ⟨old, hmem, hrevised⟩ := hold row hrow
      have hkey : (Facts.keyOfRow row).source = Rds.sourceName := hsource
      obtain ⟨o, ho, hvalue⟩ := hfaithful.shows _ hkey
      obtain ⟨o', ho', hvalue'⟩ := hshows _ hkey
      rw [(ho old).1 ⟨hmem, hrevised.2.1.symm⟩] at hvalue
      rw [(ho' row).1 ⟨hrow, rfl⟩] at hvalue'
      have hshown : Facts.shown row = Facts.shown old :=
        Option.some.inj (hvalue'.trans hvalue.symm)
      rw [hrevised.eq_of_shown hshown]
      exact hmem
    · exact (h.others row hsource).1 hrow
  have hsame : t' = t := by
    rw [h.rest, hfacts]
  exact ⟨stats, hsame ▸ hok⟩

/-- The first replay of a store whose facts were wiped. -/
theorem replay_wiped {t : Store} (hfaithful : Faithful t) (hincreasing : Increasing t)
    {rows : List ObservationRow} (hrows : Answers (wiped t) everything rows) :
    ∃ t₁ stats, replayStep everything rows (wiped t) = .ok (t₁, stats) ∧ Reproduced t t₁ ∧
      Faithful t₁ ∧ Increasing t₁ := by
  obtain ⟨t₁, stats, hok, h⟩ := replayStep_replayed hrows
    (fun o ho hsource => (hfaithful.owned o ho hsource).held (Holds.of_eq rfl rfl))
    fun k hk => ⟨none, shows_wiped t hk⟩
  have hshows : ∀ k, k.source = Rds.sourceName →
      Facts.Shows t₁.facts k (Latest.latest (log t.resources t.observations.rows) k) := by
    intro k hk
    have hv := h.shows k none hk (shows_wiped t hk)
    have hwiped : Increasing (wiped t) := hincreasing
    rw [latest_log hwiped hrows, Option.or_none] at hv
    exact hv
  have hlog : log t₁.resources t₁.observations.rows = log t.resources t.observations.rows := by
    rw [h.resources, h.observations]
    rfl
  refine ⟨t₁, stats, hok, ⟨?_, ?_, ?_⟩, ⟨?_, ?_⟩, ?_⟩
  · exact live_perm fun k hk => ⟨_, hfaithful.shows k hk, hshows k hk⟩
  · intro row hrow
    rw [h.others row hrow]
    exact Table.mem_deleteWhere.trans (and_iff_left (decide_eq_false hrow))
  · rw [h.rest]
    rfl
  · intro o ho hsource
    rw [h.observations] at ho
    exact (hfaithful.owned o ho hsource).held (Holds.of_eq h.resources h.accounts)
  · intro k hk
    rw [hlog]
    exact hshows k hk
  · rw [Increasing, h.observations]
    exact hincreasing

/-- The facts of every RDS item are the ones of the item that comes back from its payload. And after
any history of scans, from a store where no database was seen, whose observations of a database were
written in the order of `observed_at`: a replay without filters brings back the RDS facts that were
wiped, however the database orders equal times, and a second replay leaves the store as it is. -/
theorem replay_reproduces :
    (∀ (id account : Uuid) (region : String) (raw : Raw) (observedAt : Micros),
      Rds.dbToFacts id account (payloadToDb (payloadOf
          (Rds.dbToObservation id (tagRegion region raw) observedAt).payload) region) observedAt =
        Rds.dbToFacts id account (tagRegion region raw) observedAt) ∧
    ∀ (t₀ : Store), Unobserved t₀ → ∀ calls : List ScanCall, Increasing (history calls t₀) →
      ∀ rows, Answers (wiped (history calls t₀)) everything rows →
        ∃ t₁ stats, replayStep everything rows (wiped (history calls t₀)) = .ok (t₁, stats) ∧
          Reproduced (history calls t₀) t₁ ∧
          ∀ rows', Answers t₁ everything rows' →
            ∃ stats', replayStep everything rows' t₁ = .ok (t₁, stats') := by
  refine ⟨dbToFacts_payload, fun t₀ ht₀ calls hincreasing rows hrows => ?_⟩
  obtain ⟨t₁, stats, hok, hreproduced, hfaithful, hincreasing₁⟩ :=
    replay_wiped (faithful_history calls ht₀.faithful) hincreasing hrows
  exact ⟨t₁, stats, hok, hreproduced, fun rows' hrows' =>
    replay_again hfaithful hincreasing₁ hrows'⟩

/-! ## A database that is upgraded between two scans -/

/-- A scan at `at_` that finds the database at a version. -/
def versionScan (at_ : Micros) (version : String) : ScanCall where
  target := ⟨"123456789012", none, none, none, some ["eu-west-1"], some ["rds"]⟩
  options := ⟨false, false, defaultMaxConsecutiveRegionErrors, none⟩
  world := {
    assumeRole := none
    job := fun _ _ => {
      contended := false
      startedAt := at_
      items := [⟨[("DBInstanceArn", .str "arn:db-1"), ("Engine", .str "postgres"),
        ("EngineVersion", .str version)], at_ + 1, at_ + 2⟩]
      ending := .completed
      finishedAt := at_ + 3
      retiredAt := at_ + 4 }
    correlatedAt := fun _ => at_ + 5 }

def upgrade : List ScanCall := [versionScan 10 "11.22", versionScan 20 "16.3"]

/-- The five facts of the second scan come back, and stay. -/
theorem upgrade_replayed :
    ∃ t₁ stats, replayStep everything (history upgrade .empty).observations.rows
        (wiped (history upgrade .empty)) = .ok (t₁, stats) ∧
      (live t₁).Perm (live (history upgrade .empty)) ∧
      (live (history upgrade .empty)).length = 5 ∧ live (wiped (history upgrade .empty)) = [] ∧
      ∃ stats', replayStep everything (history upgrade .empty).observations.rows t₁ =
        .ok (t₁, stats') := by
  have hsorted : (history upgrade .empty).observations.rows.Pairwise
      fun o o' => o.observedAt < o'.observedAt := by decide +kernel
  have hweak : (history upgrade .empty).observations.rows.Pairwise
      fun o o' => o.observedAt ≤ o'.observedAt := hsorted.imp fun h => Int.le_of_lt h
  have hempty : Unobserved Store.empty :=
    ⟨fun _ h => absurd h (Table.not_mem_empty _), fun _ h => absurd h (Table.not_mem_empty _)⟩
  have hrows : Answers (wiped (history upgrade .empty)) everything
      (history upgrade .empty).observations.rows :=
    ⟨by rw [selected_everything]; exact List.Perm.refl _, hweak⟩
  obtain ⟨t₁, stats, hok, hreproduced, hagain⟩ := replay_reproduces.2 .empty hempty upgrade
    (fun _ => hsorted.sublist List.filter_sublist) _ hrows
  have hobservations : t₁.observations = (history upgrade .empty).observations := by
    rw [← hreproduced.rest]
  have hrows' : Answers t₁ everything (history upgrade .empty).observations.rows :=
    ⟨by rw [selected_everything, hobservations], hweak⟩
  exact ⟨t₁, stats, hok, hreproduced.live, by decide +kernel, by decide +kernel, hagain _ hrows'⟩

end ReplayFacts

end Constat
