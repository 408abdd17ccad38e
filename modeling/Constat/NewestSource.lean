import Mathlib.Data.String.Basic
import Constat.Rules.Views
import Constat.Runner

/-!
# NewestSource

Several sources may have a fact row under one name (resource, namespace and key). The bulk query
lists the newest one first and the index of a rule keeps the last one it meets, so the oldest row
is the one that decides.

* `onlyNewest`, `onlyOldest` — the store with one row a name, the newest or the oldest one.
* `get?_oldest`              — the index of all rows is the index of the oldest ones.
* `SourcesAgree`             — under some keys the oldest and the newest rows show the same.
* `newest_decides_iff`       — a rule decides by the newest rows where the sources agree under the
                               keys it reads, and each of these keys matters.
-/

namespace Constat

theorem get?_foldl_indexFacts (facts : List Fact) (idx : FactIndex) (key : String) :
    (facts.foldl (fun idx f => idx.set f.dotted f) idx).get? key =
      ((facts.filter fun f => f.dotted = key).getLast?).or (idx.get? key) := by
  induction facts generalizing idx with
  | nil => rfl
  | cons f facts ih =>
    rw [List.foldl_cons, ih, Dict.get?_set, List.filter_cons]
    by_cases hk : f.dotted = key
    · rw [if_pos hk.symm, if_pos (decide_eq_true hk)]
      cases facts.filter fun f => f.dotted = key with
      | nil => rfl
      | cons g l => rw [List.getLast?_cons_cons, List.getLast?_eq_some_getLast (by simp)]; rfl
    · rw [if_neg fun h => hk h.symm, decide_eq_false hk]
      rfl

/-- The last fact under a key is the one in the index. -/
theorem get?_indexFacts_last (facts : List Fact) (key : String) :
    (indexFacts facts).get? key = (facts.filter fun f => f.dotted = key).getLast? := by
  rw [indexFacts, get?_foldl_indexFacts, Dict.get?_empty, Option.or_none]

theorem getLast?_filter_of_last {α : Type} {p : α → Bool} {l : List α}
    (h : ∀ x, l.getLast? = some x → p x = true) : (l.filter p).getLast? = l.getLast? := by
  cases hlast : l.getLast? with
  | none => rw [List.getLast?_eq_none_iff.1 hlast]; rfl
  | some x =>
    obtain ⟨init, rfl⟩ := List.getLast?_eq_some_iff.1 hlast
    rw [List.filter_append, List.filter_cons, h x hlast]
    simp

namespace Runner

open FactIndex

/-! ## Rows under one name -/

def sameName (f g : FactRow) : Bool :=
  f.resourceId = g.resourceId ∧ f.namespaceName = g.namespaceName ∧ f.key = g.key

def onlyNewest (t : Store) : Store :=
  { t with facts := t.facts.deleteWhere fun f =>
      t.facts.rows.any fun g => sameName f g && f.observedAt < g.observedAt }

def onlyOldest (t : Store) : Store :=
  { t with facts := t.facts.deleteWhere fun f =>
      t.facts.rows.any fun g => sameName f g && g.observedAt < f.observedAt }

/-- Rows of the resource under one name were observed at different times. -/
def DistinctTimes (t : Store) (id : Uuid) : Prop :=
  ∀ f ∈ t.facts, ∀ g ∈ t.facts, f.resourceId = some id → sameName f g = true →
    f.observedAt = g.observedAt → f = g

theorem factBefore_iff (a b : FactRow) : factBefore a b = true ↔
    a.namespaceName < b.namespaceName ∨ (a.namespaceName = b.namespaceName ∧
      (a.key < b.key ∨ (a.key = b.key ∧ b.observedAt ≤ a.observedAt))) := decide_eq_true_iff

instance : Std.Total (fun a b : FactRow => factBefore a b = true) where
  total a b := by
    rw [factBefore_iff, factBefore_iff]
    rcases lt_trichotomy a.namespaceName b.namespaceName with h | h | h
    · exact .inl (.inl h)
    · rcases lt_trichotomy a.key b.key with hk | hk | hk
      · exact .inl (.inr ⟨h, .inl hk⟩)
      · rcases Int.le_total b.observedAt a.observedAt with ht | ht
        · exact .inl (.inr ⟨h, .inr ⟨hk, ht⟩⟩)
        · exact .inr (.inr ⟨h.symm, .inr ⟨hk.symm, ht⟩⟩)
      · exact .inr (.inr ⟨h.symm, .inl hk⟩)
    · exact .inr (.inl h)

instance : IsTrans FactRow (fun a b : FactRow => factBefore a b = true) where
  trans a b c hab hbc := by
    rw [factBefore_iff] at hab hbc ⊢
    rcases hab with hab | ⟨hab, hab'⟩
    · rcases hbc with hbc | ⟨hbc, _⟩
      · exact .inl (lt_trans hab hbc)
      · exact .inl (hbc ▸ hab)
    · rcases hbc with hbc | ⟨hbc, hbc'⟩
      · exact .inl (hab ▸ hbc)
      · refine .inr ⟨hab.trans hbc, ?_⟩
        rcases hab' with hab' | ⟨hab', hle⟩
        · rcases hbc' with hbc' | ⟨hbc', _⟩
          · exact .inl (lt_trans hab' hbc')
          · exact .inl (hbc' ▸ hab')
        · rcases hbc' with hbc' | ⟨hbc', hle'⟩
          · exact .inl (hab' ▸ hbc')
          · exact .inr ⟨hab'.trans hbc', Int.le_trans hle' hle⟩

/-- Two rows that come before each other have one name and one time. -/
theorem sameName_of_factBefore {a b : FactRow} (hres : a.resourceId = b.resourceId)
    (hab : factBefore a b = true) (hba : factBefore b a = true) :
    sameName a b = true ∧ a.observedAt = b.observedAt := by
  rw [factBefore_iff] at hab hba
  rcases hab with hab | ⟨hns, hab⟩
  · rcases hba with hba | ⟨hns, _⟩
    · exact absurd hab (lt_asymm hba)
    · rw [hns] at hab; exact absurd hab (lt_irrefl _)
  · rcases hba with hba | ⟨_, hba⟩
    · rw [hns] at hba; exact absurd hba (lt_irrefl _)
    · rcases hab with hab | ⟨hkey, hle⟩
      · rcases hba with hba | ⟨hkey, _⟩
        · exact absurd hab (lt_asymm hba)
        · rw [hkey] at hab; exact absurd hab (lt_irrefl _)
      · rcases hba with hba | ⟨_, hle'⟩
        · rw [hkey] at hba; exact absurd hba (lt_irrefl _)
        · exact ⟨decide_eq_true ⟨hres, hns, hkey⟩, Int.le_antisymm hle' hle⟩

section

variable {t : Store} {id : Uuid}

def resourceRows (t : Store) (id : Uuid) : List FactRow :=
  t.facts.rows.filter fun f => f.resourceId = some id

theorem mem_resourceRows {f : FactRow} :
    f ∈ resourceRows t id ↔ f ∈ t.facts ∧ f.resourceId = some id := by
  rw [resourceRows, List.mem_filter, decide_eq_true_eq]
  rfl

/-- Leaving rows out leaves the order of the others. -/
theorem insertionSort_filter (h : DistinctTimes t id) (p : FactRow → Bool) :
    ((resourceRows t id).filter p).insertionSort (factBefore · ·) =
      ((resourceRows t id).insertionSort (factBefore · ·)).filter p := by
  refine List.Perm.eq_of_pairwise (fun a b ha hb hab hba => ?_)
    (List.pairwise_insertionSort _ _) ((List.pairwise_insertionSort _ _).sublist
      List.filter_sublist)
    ((List.perm_insertionSort _ _).trans ((List.perm_insertionSort _ _).symm.filter p))
  have hrow : ∀ {x}, x ∈ ((resourceRows t id).filter p).insertionSort (factBefore · ·) →
      x ∈ t.facts ∧ x.resourceId = some id := fun hx =>
    mem_resourceRows.1 (List.mem_of_mem_filter ((List.mem_insertionSort _).1 hx))
  have hb' : b ∈ t.facts ∧ b.resourceId = some id :=
    mem_resourceRows.1 ((List.mem_insertionSort _).1 (List.mem_of_mem_filter hb))
  obtain ⟨ha, hares⟩ := hrow ha
  obtain ⟨hname, htime⟩ := sameName_of_factBefore (hares.trans hb'.2.symm) hab hba
  exact h a ha b hb'.1 hares hname htime

/-- The facts of the rows that are kept, in the order of all of them. -/
theorem factsOf_kept (h : DistinctTimes t id) (p : FactRow → Bool) :
    factsOf { t with facts := t.facts.deleteWhere p } id =
      (((resourceRows t id).insertionSort (factBefore · ·)).filter fun f => !p f).map toFact := by
  have hrows : resourceRows { t with facts := t.facts.deleteWhere p } id =
      (resourceRows t id).filter fun f => !p f := by
    simp only [resourceRows, Table.deleteWhere, List.filter_filter]
    exact List.filter_congr fun f _ => Bool.and_comm _ _
  rw [factsOf, ← resourceRows, hrows, insertionSort_filter h]

theorem filter_dotted (l : List FactRow) (key : String) :
    (l.map toFact).filter (fun f => decide (f.dotted = key)) =
      (l.filter fun f => decide ((toFact f).dotted = key)).map toFact := by
  rw [List.filter_map]
  rfl

/-- The index of all rows finds what the index of the oldest ones finds. -/
theorem get?_oldest (h : DistinctTimes t id) (key : String) :
    (indexFacts (factsOf t id)).get? key = (indexFacts (factsOf (onlyOldest t) id)).get? key := by
  let older : FactRow → Bool := fun f =>
    t.facts.rows.any fun g => sameName f g && decide (g.observedAt < f.observedAt)
  let sorted := (resourceRows t id).insertionSort (factBefore · ·)
  have hfacts : factsOf (onlyOldest t) id = (sorted.filter fun f => !older f).map toFact :=
    factsOf_kept h older
  have hall : factsOf t id = sorted.map toFact := rfl
  rw [get?_indexFacts_last, get?_indexFacts_last, hfacts, hall, filter_dotted, filter_dotted,
    List.filter_comm, List.getLast?_map, List.getLast?_map]
  refine congrArg (Option.map toFact) (getLast?_filter_of_last fun x hlast => ?_).symm
  -- an older row of the name would come after the last one
  have hpairwise : (sorted.filter fun f => decide ((toFact f).dotted = key)).Pairwise
      fun a b => factBefore a b = true :=
    (List.pairwise_insertionSort _ _).sublist List.filter_sublist
  have hmem := List.mem_of_getLast? hlast
  have hx := mem_resourceRows.1 ((List.mem_insertionSort _).1 (List.mem_of_mem_filter hmem))
  rw [Bool.not_eq_true', List.any_eq_false]
  intro g hg hold
  rw [Bool.and_eq_true, decide_eq_true_eq] at hold
  obtain ⟨hname, htime⟩ := hold
  obtain ⟨hres, hns, hkey⟩ := of_decide_eq_true hname
  have hgmem : g ∈ sorted.filter fun f => decide ((toFact f).dotted = key) := by
    refine List.mem_filter.2 ⟨(List.mem_insertionSort _).2 (mem_resourceRows.2 ⟨hg, ?_⟩), ?_⟩
    · rw [← hres, hx.2]
    · have hxkey := (List.mem_filter.1 hmem).2
      rw [decide_eq_true_eq] at hxkey ⊢
      rw [← hxkey, Fact.dotted, Fact.dotted]
      show g.namespaceName ++ "." ++ g.key = x.namespaceName ++ "." ++ x.key
      rw [hns, hkey]
  obtain ⟨init, hinit⟩ := List.getLast?_eq_some_iff.1 hlast
  rw [hinit] at hpairwise hgmem
  rcases List.mem_append.1 hgmem with hgmem | hgmem
  · have hbefore := (List.pairwise_append.1 hpairwise).2.2 g hgmem x (List.mem_singleton_self x)
    rw [factBefore_iff, hns, hkey] at hbefore
    rcases hbefore with hlt | ⟨_, hlt | ⟨_, hle⟩⟩
    · exact lt_irrefl _ hlt
    · exact lt_irrefl _ hlt
    · exact absurd htime (Int.not_lt.2 hle)
  · rw [List.mem_singleton.1 hgmem] at htime
    exact Int.lt_irrefl _ htime

/-- Names under the key that have one row each show it, as the oldest one and as the newest. -/
theorem get?_single (h : DistinctTimes t id) {key : String}
    (hone : ∀ f ∈ t.facts, ∀ g ∈ t.facts, sameName f g = true → (toFact f).dotted = key →
      f.observedAt = g.observedAt) :
    (indexFacts (factsOf (onlyOldest t) id)).get? key =
      (indexFacts (factsOf (onlyNewest t) id)).get? key := by
  rw [get?_indexFacts_last, get?_indexFacts_last, onlyOldest, onlyNewest, factsOf_kept h,
    factsOf_kept h, filter_dotted, filter_dotted, List.filter_filter, List.filter_filter]
  refine congrArg (fun l => (l.map toFact).getLast?) (List.filter_congr fun f hf => ?_)
  have hmem := (mem_resourceRows.1 ((List.mem_insertionSort _).1 hf)).1
  by_cases hkey : (toFact f).dotted = key
  · have hnone : ∀ g ∈ t.facts.rows, sameName f g = true → g.observedAt = f.observedAt :=
      fun g hg hname => (hone f hmem g hg hname hkey).symm
    have hnotOlder : (t.facts.rows.any fun g => sameName f g && g.observedAt < f.observedAt) =
        false := by
      rw [List.any_eq_false]
      intro g hg hold
      rw [Bool.and_eq_true, decide_eq_true_eq] at hold
      rw [hnone g hg hold.1] at hold
      exact Int.lt_irrefl _ hold.2
    have hnotNewer : (t.facts.rows.any fun g => sameName f g && f.observedAt < g.observedAt) =
        false := by
      rw [List.any_eq_false]
      intro g hg hnew
      rw [Bool.and_eq_true, decide_eq_true_eq] at hnew
      rw [hnone g hg hnew.1] at hnew
      exact Int.lt_irrefl _ hnew.2
    rw [hnotOlder, hnotNewer]
  · simp [hkey]

/-! ## What decides -/

/-- The rule decides the resource as if only the newest row of each name existed. -/
def DecidesByNewest (t : Store) (id : Uuid) (rule : ResourceRule) (today : Date) : Prop :=
  rule.evaluate id (factsOf t id) today = rule.evaluate id (factsOf (onlyNewest t) id) today

/-- Under the keys the oldest and the newest rows of the resource show the same. -/
def SourcesAgree (t : Store) (id : Uuid) (keys : List String) : Prop :=
  SameUnder keys (indexFacts (factsOf (onlyOldest t) id)) (indexFacts (factsOf (onlyNewest t) id))

/-- The same, under every key that is not one of `K`. -/
def AgreeOutside (K : String → Prop) (t : Store) (id : Uuid) : Prop :=
  ∀ key, ¬ K key → (indexFacts (factsOf (onlyOldest t) id)).view key =
    (indexFacts (factsOf (onlyNewest t) id)).view key

theorem decidesByNewest_of_agree (h : DistinctTimes t id) {rule : ResourceRule}
    {keys : List String} (hrule : ReadsUnder keys rule) (hagree : SourcesAgree t id keys)
    (today : Date) : DecidesByNewest t id rule today := by
  have holdest : SameUnder keys (indexFacts (factsOf t id))
      (indexFacts (factsOf (onlyOldest t) id)) := by
    intro key _
    rw [view, view, get?_oldest h]
  exact (hrule id _ _ today holdest).trans (hrule id _ _ today hagree)

end

/-! ## Two sources -/

def factRow (id : Uuid) (name : String × String) (value : Json) (valueState : ValueState)
    (source : String) (observedAt : Micros) : FactRow where
  id := id
  resourceId := some 0
  accountId := some 0
  namespaceName := name.1
  key := name.2
  value := value
  valueState := valueState
  source := source
  observedAt := observedAt
  lastSourceRunId := none

/-- What the last scan knows, and an older row that an import has left under one of the names. -/
def twoSources (known : List ((String × String) × Json)) (name : String × String) (value : Json)
    (valueState : ValueState) : Store :=
  { Store.empty with
    facts := Table.empty.putAll (factRow 0 name value valueState "cmdb_import" 100 ::
      (known.zipIdx 1).map fun p => factRow p.2 p.1.1 p.1.2 .known "aws_rds" 200) }

/-- A row that knows nothing, under this name only, has the rule decide otherwise. -/
def Misled (rule : ResourceRule) (today : Date) (known : List ((String × String) × Json))
    (name : String × String) : Prop :=
  let t := twoSources known name .null .unknown
  DistinctTimes t 0 ∧
    (∀ f ∈ t.facts, ∀ g ∈ t.facts, sameName f g = true →
      (toFact f).dotted ≠ name.1 ++ "." ++ name.2 → f.observedAt = g.observedAt) ∧
    ¬ DecidesByNewest t 0 rule today

instance (rule : ResourceRule) (today : Date) (known : List ((String × String) × Json))
    (name : String × String) : Decidable (Misled rule today known name) := by
  unfold Misled DistinctTimes DecidesByNewest
  infer_instance

/-- Sources that disagree under the key alone can have the rule decide otherwise. -/
def Matters (rule : ResourceRule) (key : String) : Prop :=
  ∃ t id today, DistinctTimes t id ∧ AgreeOutside (· = key) t id ∧
    ¬ DecidesByNewest t id rule today

theorem Misled.matters {rule : ResourceRule} {today : Date}
    {known : List ((String × String) × Json)} {name : String × String}
    (h : Misled rule today known name) : Matters rule (name.1 ++ "." ++ name.2) := by
  obtain ⟨htimes, hone, hother⟩ := h
  refine ⟨_, 0, today, htimes, fun key hkey => ?_, hother⟩
  refine congrArg (Option.map viewOf) (get?_single htimes fun f hf g hg hname hdotted => ?_)
  exact hone f hf g hg hname fun heq => hkey (hdotted.symm.trans heq)

theorem matters_of {rule : ResourceRule} {keys : List String} (today : Date)
    (known : List ((String × String) × Json))
    (hkeys : keys = known.map fun p => p.1.1 ++ "." ++ p.1.2)
    (h : ∀ p ∈ known, Misled rule today known p.1) : ∀ key ∈ keys, Matters rule key := by
  intro key hkey
  rw [hkeys] at hkey
  obtain ⟨p, hp, rfl⟩ := List.mem_map.1 hkey
  exact (h p hp).matters

def database (engine version : String) : List ((String × String) × Json) :=
  [(("aws.rds", "engine"), .str engine), (("aws.rds", "engine_version"), .str version),
    (("aws.rds", "vcpu"), .int 2), (("aws.rds", "region"), .str "eu-west-1")]

def volume (volumeType : String) : List ((String × String) × Json) :=
  [(("aws.ec2.volume", "volume_type"), .str volumeType), (("aws.ec2.volume", "size_gb"), .int 100),
    (("aws.ec2.volume", "region"), .str "eu-west-1")]

def unattachedVolume : List ((String × String) × Json) :=
  [(("aws.ec2.volume", "state"), .str "available"), (("aws.ec2.volume", "size_gb"), .int 100),
    (("aws.ec2.volume", "volume_type"), .str "gp3"),
    (("aws.ec2.volume", "region"), .str "eu-west-1")]

def orphanSnapshot : List ((String × String) × Json) :=
  [(("aws.ec2.snapshot", "state"), .str "completed"), (("aws.ec2.snapshot", "size_gb"), .int 100),
    (("aws.ec2.snapshot", "volume_exists"), .bool false),
    (("aws.ec2.snapshot", "description"), .str "nightly"),
    (("aws.ec2.snapshot", "region"), .str "eu-west-1"),
    (("aws.ec2.snapshot", "storage_tier"), .str "archive"),
    (("aws.ec2.snapshot", "start_time"), .str "2026-01-01T00:00:00+00:00")]

def stoppedInstance : List ((String × String) × Json) :=
  [(("aws.ec2.instance", "state"), .str "stopped"),
    (("aws.ec2.instance", "region"), .str "eu-west-1"),
    (("aws.ec2.instance", "attached_volumes"), .list [.obj [("volume_id", .str "vol-1"),
      ("size_gb", .int 100), ("volume_type", .str "gp3")]])]

/-- Each key that a rule reads matters to it. -/
theorem key_matters : ∀ p ∈ ruleKeys .double, ∀ key ∈ p.2, Matters p.1 key := by
  simp only [ruleKeys, List.forall_mem_cons]
  refine ⟨?_, ?_, ?_, ?_, ?_, ?_, ?_, fun _ h => by cases h⟩
  · exact matters_of (.ofYmd 2026 7 18) (database "postgres" "11.22") rfl (by decide +kernel)
  · exact matters_of (.ofYmd 2026 7 18) (database "mysql" "5.7.44") rfl (by decide +kernel)
  · exact matters_of (.ofYmd 2026 7 18) (database "aurora-mysql" "5.7.mysql_aurora.2.11.1") rfl
      (by decide +kernel)
  · exact matters_of (.ofYmd 2026 7 18) (volume "gp2") rfl (by decide +kernel)
  · exact matters_of (.ofYmd 2026 7 18) unattachedVolume rfl (by decide +kernel)
  · exact matters_of (.ofYmd 2026 7 18) orphanSnapshot rfl (by decide +kernel)
  · exact matters_of (.ofYmd 2026 7 18) stoppedInstance rfl (by decide +kernel)

/-- A rule decides as if only the newest rows existed wherever the sources agree under the keys that
it reads. Where the sources may disagree under the keys `K`, it decides so on every resource and
date exactly when it reads none of them. -/
theorem newest_decides_iff (K : String → Prop) :
    (∀ fp, ∀ p ∈ ruleKeys fp, ∀ t id, DistinctTimes t id → SourcesAgree t id p.2 →
      ∀ today, DecidesByNewest t id p.1 today) ∧
    ∀ p ∈ ruleKeys .double,
      (∀ t id, DistinctTimes t id → AgreeOutside K t id →
        ∀ today, DecidesByNewest t id p.1 today) ↔ ∀ key ∈ p.2, ¬ K key := by
  constructor
  · exact fun fp p hp t id h hagree today =>
      decidesByNewest_of_agree h (readsUnder_ruleKeys fp p hp) hagree today
  · intro p hp
    constructor
    · intro hall key hkey hK
      obtain ⟨t, id, today, htimes, hagree, hother⟩ := key_matters p hp key hkey
      refine hother (hall t id htimes (fun key' hkey' => hagree key' fun heq => ?_) today)
      exact hkey' (heq ▸ hK)
    · intro hnone t id htimes hagree today
      exact decidesByNewest_of_agree htimes (readsUnder_ruleKeys .double p hp)
        (fun key hkey => hagree key (hnone key hkey)) today

/-- PostgreSQL 11 as of an old import and 17 as of the last scan: the version of the import makes
the gap, PostgreSQL 17 has none. -/
theorem oldest_source_decides :
    let t := twoSources (database "postgres" "17.2") ("aws.rds", "engine_version") (.str "11.22") .known
    DistinctTimes t 0 ∧
      ¬ DecidesByNewest t 0 (Eol.rule .double Eol.rdsEol) (.ofYmd 2026 7 18) := by
  intro t
  constructor
  · unfold DistinctTimes
    decide +kernel
  · unfold DecidesByNewest
    decide +kernel

/-- The instance class as of an old import and as of the last scan. -/
def twoClasses : Store :=
  twoSources ((("aws.rds", "instance_class"), .str "db.t3.large") :: database "postgres" "17.2")
    ("aws.rds", "instance_class") (.str "db.m5.large") .known

/-- Of two sources of the instance class no rule takes notice. -/
theorem instance_class_ignored (today : Date) :
    ∀ p ∈ ruleKeys .double, DecidesByNewest twoClasses 0 p.1 today := by
  intro p hp
  have htimes : DistinctTimes twoClasses 0 := by
    unfold DistinctTimes
    decide +kernel
  have hunread : ∀ p ∈ ruleKeys .double, "aws.rds.instance_class" ∉ p.2 := by
    simp only [ruleKeys, List.forall_mem_cons]
    decide +kernel
  have hone : ∀ f ∈ twoClasses.facts, ∀ g ∈ twoClasses.facts, sameName f g = true →
      (toFact f).dotted ≠ "aws.rds.instance_class" → f.observedAt = g.observedAt := by
    decide +kernel
  refine decidesByNewest_of_agree htimes (readsUnder_ruleKeys .double p hp) (fun key hkey => ?_) today
  refine congrArg (Option.map viewOf) (get?_single htimes fun f hf g hg hname hdotted => ?_)
  exact hone f hf g hg hname fun heq => hunread p hp (heq ▸ hdotted ▸ hkey)

end Runner

end Constat
