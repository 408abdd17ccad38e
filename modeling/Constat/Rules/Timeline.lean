import Mathlib.Tactic.NormNum
import Constat.Py.Rounding
import Constat.Rules.Raises

/-!
# Rules.Timeline

An end-of-life rule over the days, on facts that do not change and in exact arithmetic: first
nothing, then a warning, then a critical gap, with an amount that does not decrease.

* `entryOf`     — the matcher, catalog entry and vCPU count that the facts lead to.
* `withCatalog` — the rule over any catalog.
* `Timeline`    — what holds of the evaluations on all days.
* `own_catalog_timeline` — over the catalogs of the rules, where each entry has an upgrade target and
                  its dates in order.
-/

namespace Constat

open Catalog

namespace Eol

/-- What the facts of a resource are priced by. -/
structure Entry where
  m : EngineEolMatcher
  info : EolInfo
  vcpuCount : Int

/-- The entry of a resource with all four facts KNOWN. -/
def entryOfKnown (m : EngineEolMatcher) (version vcpu : Fact) : Option Entry :=
  match m.parseMajor (Py.str version.value), Py.int vcpu.value with
  | .ok (some major), .ok vcpuCount =>
    match m.lookupEolInfo major, m.upgradeTarget major with
    | some info, .ok _ => some ⟨m, info, vcpuCount⟩
    | _, _ => none
  | _, _ => none

/-- The entry that the facts lead to; none when the rule has nothing to price. -/
def entryOf (config : EolRuleConfig) (facts : List Fact) : Option Entry :=
  let idx := indexFacts facts
  match idx.known "aws.rds.engine" with
  | none => none
  | some engine =>
    match selectMatcher config (Py.str engine.value) with
    | none => none
    | some m =>
      match idx.known "aws.rds.engine_version", idx.known "aws.rds.vcpu",
        idx.known "aws.rds.region" with
      | some version, some vcpu, some _ => entryOfKnown m version vcpu
      | _, _, _ => none

/-- The rule with another catalog behind its matchers. -/
def withCatalog (lookup : EngineEolMatcher → Json → Option EolInfo) (config : EolRuleConfig) :
    EolRuleConfig :=
  { config with engines := config.engines.map fun m => { m with lookupEolInfo := lookup m } }

inductive Verdict where
  | none
  | warning
  | critical
deriving DecidableEq

def Verdict.rank : Verdict → Nat
  | .none => 0
  | .warning => 1
  | .critical => 2

/-- The verdict of an evaluation; an insight of another severity would be none of the three. -/
def verdictOf : Except PyError RuleResult → Option Verdict
  | .ok ⟨i :: _, _⟩ =>
    match i.severity with
    | .critical => some .critical
    | .warning => some .warning
    | .info => Option.none
  | _ => some .none

def Alerts (r : Except PyError RuleResult) : Prop := ∃ i, r = .ok (.gap i)

/-- The monthly amount of the insight, if there is one. -/
def monthlyOf : Except PyError RuleResult → Option Rat
  | .ok ⟨i :: _, _⟩ =>
    match Json.get? i.payload "extended_support_monthly_usd" with
    | some (.float (.finite q)) => some q
    | _ => Option.none
  | _ => Option.none

structure Timeline (entry : Option Entry) (window : Int) (r : Date → Except PyError RuleResult) :
    Prop where
  verdict : ∀ {t₁ t₂}, t₁ ≤ t₂ → ∃ v₁ v₂, verdictOf (r t₁) = some v₁ ∧ verdictOf (r t₂) = some v₂ ∧
    v₁.rank ≤ v₂.rank
  alert : ∀ t, Alerts (r t) ↔ ∃ e, entry = some e ∧ e.info.eolDate.daysSince t ≤ window
  priced : ∀ t, Alerts (r t) ↔ ∃ q, monthlyOf (r t) = some q
  amount : ∀ {t₁ t₂}, t₁ ≤ t₂ → ∀ q₁, monthlyOf (r t₁) = some q₁ →
    ∃ q₂, monthlyOf (r t₂) = some q₂ ∧ q₁ ≤ q₂
  one : ∀ t res, r t = .ok res → res.insights.length ≤ 1

/-! ## Tiers and prices -/

/-- The tier of a matcher only goes up, and so does its price. -/
structure Progressive (m : EngineEolMatcher) : Prop where
  tier : ∀ info {t₁ t₂ : Date}, t₁ ≤ t₂ → m.computeTier info t₁ = .year3Plus →
    m.computeTier info t₂ = .year3Plus
  price : ∀ region, ∃ rate : Tier → Rat,
    (∀ tier, (m.pricePerVcpuHour .exact tier region).rate = .finite (rate tier)) ∧
      0 ≤ rate .year12 ∧ rate .year12 ≤ rate .year3Plus

theorem extendedSupportTier_mono {eol t₁ t₂ : Date} (h : t₁ ≤ t₂)
    (ht : extendedSupportTier eol t₁ = .year3Plus) : extendedSupportTier eol t₂ = .year3Plus := by
  have hle : t₁.ordinal ≤ t₂.ordinal := h
  unfold extendedSupportTier Date.daysSince at ht ⊢
  split at ht
  · cases ht
  · rw [if_neg]
    omega

theorem engineExtendedSupportTier_mono {info : EolInfo} {t₁ t₂ : Date} (h : t₁ ≤ t₂)
    (ht : engineExtendedSupportTier info t₁ = .year3Plus) :
    engineExtendedSupportTier info t₂ = .year3Plus := by
  unfold engineExtendedSupportTier at ht ⊢
  split at ht
  · rename_i start _ _ _
    split at ht
    · rename_i hstart
      exact if_pos (Int.le_trans hstart h)
    · cases ht
  · cases ht

/-- Every grid of the catalog charges more from the third year on. -/
theorem esPriceByRegion_ordered : ∀ p ∈ esPriceByRegion,
    0 ≤ p.2 .year12 ∧ p.2 .year12 ≤ p.2 .year3Plus := by
  simp only [esPriceByRegion, List.forall_mem_cons]
  refine ⟨?_, ?_, ?_, fun _ h => by cases h⟩ <;> norm_num

theorem esPrice_ordered (region : Option String) : ∃ rate : Tier → Rat,
    (∀ tier, (esPricePerVcpuHour .exact tier region).rate = .finite (rate tier)) ∧
      0 ≤ rate .year12 ∧ rate .year12 ≤ rate .year3Plus := by
  unfold esPricePerVcpuHour
  cases hgrid : region.bind fun r => (find esPriceByRegion r).map fun grid => (r, grid) with
  | some p =>
    obtain ⟨r, _, hfind⟩ := Option.bind_eq_some_iff.1 hgrid
    obtain ⟨grid, hgrid', rfl⟩ := Option.map_eq_some_iff.1 hfind
    exact ⟨grid, fun tier => rfl, esPriceByRegion_ordered _ (find_some hgrid')⟩
  | none =>
    obtain ⟨grid, hdefault⟩ : ∃ grid, find esPriceByRegion esDefaultRegion = some grid := ⟨_, rfl⟩
    rw [hdefault]
    exact ⟨_, fun tier => rfl, esPriceByRegion_ordered _ (find_some hdefault)⟩

/-! ## One evaluation -/

section

variable {config : EolRuleConfig} {m : EngineEolMatcher} {x : EolSubject}

/-- The amount of a subject, by the rates of its region. -/
def monthlyAmount (vcpuCount : Int) (rate : Rat) : Rat := cents (vcpuCount * rate * 730)

theorem monthlyUsd_exact (n : Int) (rate : Rat) :
    monthlyUsd .exact n (.finite rate) = .ok (.finite (monthlyAmount n rate)) := by
  have hint : ∀ i : Int, Arith.exact.ofInt i = .ok (.finite i) := fun _ => rfl
  have hmul : ∀ p q : Rat, Arith.exact.mul (.finite p) (.finite q) = .finite (p * q) :=
    fun _ _ => rfl
  simp only [monthlyUsd, hint, hmul, round_exact, hoursPerMonth, monthlyAmount]
  norm_num

theorem monthlyAmount_mono {n : Int} (hn : 0 ≤ n) {p q : Rat} (h : p ≤ q) :
    monthlyAmount n p ≤ monthlyAmount n q := by
  have hcast : (0 : Rat) ≤ n := by exact_mod_cast hn
  refine cents_mono ?_
  have := mul_le_mul_of_nonneg_left h hcast
  linarith

/-- The insight is made, with this severity and the amount of the day's tier. -/
theorem makeInsight_exact (config : EolRuleConfig) {rate : Tier → Rat}
    (hrate : ∀ tier, (m.pricePerVcpuHour .exact tier x.region).rate = .finite (rate tier))
    (hkey : m.vcpuPayloadKey ≠ "extended_support_monthly_usd") (days : Int) (severity : Severity)
    (title recommendation : String) :
    ∃ i, makeInsight .exact config m x days severity title recommendation = .ok (.gap i) ∧
      i.severity = severity ∧
      monthlyOf (.ok (.gap i)) =
        some (monthlyAmount x.vcpuCount (rate (m.computeTier x.info x.current))) := by
  simp only [makeInsight, hrate, monthlyUsd_exact]
  refine ⟨_, rfl, rfl, ?_⟩
  simp [monthlyOf, RuleResult.gap, Json.get?, hkey]

/-- The verdict of a day, by the two distances the rule looks at. -/
def verdictAt (window : Int) (info : EolInfo) (t : Date) : Verdict :=
  if info.endOfExtendedSupport < t then .critical
  else if window < info.eolDate.daysSince t then .none
  else if info.eolDate.daysSince t ≤ 0 then .critical
  else .warning

/-- What an evaluation of a day returns, when the entry prices it at `q`. -/
structure Shows (v : Verdict) (q : Rat) (r : Except PyError RuleResult) : Prop where
  verdict : verdictOf r = some v
  alert : Alerts r ↔ v ≠ .none
  amount : monthlyOf r = if v = .none then Option.none else some q

theorem shows_noMatch (q : Rat) : Shows .none q (.ok .noMatch) := by
  refine ⟨rfl, ?_, rfl⟩
  simp [Alerts]

theorem shows_gap {i : Insight} {v : Verdict} {q : Rat} (hv : v ≠ .none)
    (hverdict : verdictOf (.ok (.gap i)) = some v) (hq : monthlyOf (.ok (.gap i)) = some q) :
    Shows v q (.ok (.gap i)) :=
  ⟨hverdict, ⟨fun _ => hv, fun _ => ⟨i, rfl⟩⟩, by rw [hq, if_neg hv]⟩

theorem evaluateDates_exact {rate : Tier → Rat}
    (hrate : ∀ tier, (m.pricePerVcpuHour .exact tier x.region).rate = .finite (rate tier))
    (hkey : m.vcpuPayloadKey ≠ "extended_support_monthly_usd") {target : String}
    (htarget : m.upgradeTarget x.major = .ok target) :
    Shows (verdictAt config.alertWindowDays x.info x.current)
      (monthlyAmount x.vcpuCount (rate (m.computeTier x.info x.current)))
      (evaluateDates .exact config m x) := by
  have hgap : ∀ (days : Int) (v : Verdict) (severity : Severity) (title recommendation : String),
      (v = .critical ∧ severity = .critical) ∨ (v = .warning ∧ severity = .warning) →
      Shows v (monthlyAmount x.vcpuCount (rate (m.computeTier x.info x.current)))
        (makeInsight .exact config m x days severity title recommendation) := by
    intro days v severity title recommendation hv
    obtain ⟨i, hi, hseverity, hq⟩ :=
      makeInsight_exact config hrate hkey days severity title recommendation
    rw [hi]
    rcases hv with ⟨rfl, rfl⟩ | ⟨rfl, rfl⟩
    · exact shows_gap (by simp) (by simp [verdictOf, RuleResult.gap, hseverity]) hq
    · exact shows_gap (by simp) (by simp [verdictOf, RuleResult.gap, hseverity]) hq
  simp only [evaluateDates, htarget, verdictAt]
  split
  · exact hgap _ _ _ _ _ (.inl ⟨rfl, rfl⟩)
  · split
    · exact shows_noMatch _
    · split
      · exact hgap _ _ _ _ _ (.inl ⟨rfl, rfl⟩)
      · exact hgap _ _ _ _ _ (.inr ⟨rfl, rfl⟩)

/-! ## Two days -/

theorem rank_verdictAt (window : Int) (info : EolInfo) (t : Date) :
    (verdictAt window info t).rank =
      if info.endOfExtendedSupport < t then 2
      else if window < info.eolDate.daysSince t then 0
      else if info.eolDate.daysSince t ≤ 0 then 2
      else 1 := by
  unfold verdictAt
  split_ifs <;> rfl

theorem verdictAt_mono {window : Int} {info : EolInfo}
    (hinfo : info.eolDate ≤ info.endOfExtendedSupport) {t₁ t₂ : Date} (h : t₁ ≤ t₂) :
    (verdictAt window info t₁).rank ≤ (verdictAt window info t₂).rank := by
  have hle : t₁.ordinal ≤ t₂.ordinal := h
  have hend : ∀ t : Date, info.endOfExtendedSupport < t ↔
      info.endOfExtendedSupport.ordinal < t.ordinal := fun _ => Iff.rfl
  have hdates : info.eolDate.ordinal ≤ info.endOfExtendedSupport.ordinal := hinfo
  rw [rank_verdictAt, rank_verdictAt]
  split_ifs <;> simp only [hend, Date.daysSince] at * <;> omega

theorem verdictAt_ne_none {window : Int} (hwindow : 0 ≤ window) {info : EolInfo}
    (hinfo : info.eolDate ≤ info.endOfExtendedSupport) (t : Date) :
    verdictAt window info t ≠ .none ↔ info.eolDate.daysSince t ≤ window := by
  have hend : info.endOfExtendedSupport < t ↔
      info.endOfExtendedSupport.ordinal < t.ordinal := Iff.rfl
  have hdates : info.eolDate.ordinal ≤ info.endOfExtendedSupport.ordinal := hinfo
  unfold verdictAt
  split_ifs with hpast hearly hdue
  · rw [hend] at hpast
    exact ⟨fun _ => by unfold Date.daysSince; omega, fun _ => by simp⟩
  · exact ⟨fun hne => absurd rfl hne, fun hle => absurd hearly (Int.not_lt.2 hle)⟩
  · exact ⟨fun _ => Int.le_trans hdue hwindow, fun _ => by simp⟩
  · exact ⟨fun _ => Int.not_lt.1 hearly, fun _ => by simp⟩

theorem monthlyAmount_tier_mono (hm : Progressive m) {n : Int} (hn : 0 ≤ n) {rate : Tier → Rat}
    (hrate : rate .year12 ≤ rate .year3Plus) (info : EolInfo) {t₁ t₂ : Date} (h : t₁ ≤ t₂) :
    monthlyAmount n (rate (m.computeTier info t₁)) ≤
      monthlyAmount n (rate (m.computeTier info t₂)) := by
  refine monthlyAmount_mono hn ?_
  cases h₁ : m.computeTier info t₁ with
  | year12 =>
    cases m.computeTier info t₂ with
    | year12 => exact le_refl _
    | year3Plus => exact hrate
  | year3Plus => rw [hm.tier info h h₁]

end

/-! ## All days -/

section

variable {config : EolRuleConfig} {facts : List Fact}

/-- The evaluations `r` of all days are alike and without a gap, or, with an entry, its branches. -/
def FollowsEntry (fp : Arith) (config : EolRuleConfig) (entry : Option Entry)
    (r : Date → Except PyError RuleResult) : Prop :=
  match entry with
  | none => ∃ r₀, (∀ res, r₀ = .ok res → res.insights = []) ∧ ∀ t, r t = r₀
  | some e => e.m ∈ config.engines ∧ ∃ (x : EolSubject) (target : String), x.info = e.info ∧
      x.vcpuCount = e.vcpuCount ∧ e.m.upgradeTarget x.major = .ok target ∧
      ∀ t, r t = evaluateDates fp config e.m { x with current := t }

theorem followsEntry_error {fp : Arith} {r : Date → Except PyError RuleResult} (e : PyError)
    (h : ∀ t, r t = .error e) : FollowsEntry fp config none r := by
  refine ⟨.error e, fun res hres => ?_, h⟩
  cases hres

theorem followsEntry_quiet {fp : Arith} {r : Date → Except PyError RuleResult} (res : RuleResult)
    (hnil : res.insights = []) (h : ∀ t, r t = .ok res) : FollowsEntry fp config none r := by
  refine ⟨.ok res, fun res' hres => ?_, h⟩
  cases hres
  exact hnil

theorem evaluateKnown_entry (fp : Arith) {m : EngineEolMatcher} (hm : m ∈ config.engines)
    (id : Uuid) (engine version vcpu region : Fact) (catalogVersion : String) :
    FollowsEntry fp config (entryOfKnown m version vcpu) fun t =>
      evaluateKnown fp config m id engine version vcpu region t catalogVersion := by
  unfold entryOfKnown
  cases hmajor : m.parseMajor (Py.str version.value) with
  | error e => exact followsEntry_error e fun t => by simp only [evaluateKnown, hmajor]
  | ok parsed =>
    cases parsed with
    | none =>
      exact followsEntry_quiet (.inconclusive ["aws.rds.engine_version.malformed"]) rfl fun t => by
        simp only [evaluateKnown, hmajor]
    | some major =>
      cases hvcpu : Py.int vcpu.value with
      | error e =>
        by_cases hcls : e.cls = "TypeError" ∨ e.cls = "ValueError"
        · exact followsEntry_quiet (.inconclusive ["aws.rds.vcpu.malformed"]) rfl fun t => by
            simp only [evaluateKnown, hmajor, hvcpu, if_pos hcls]
        · exact followsEntry_error e fun t => by
            simp only [evaluateKnown, hmajor, hvcpu, if_neg hcls]
      | ok n =>
        cases hinfo : m.lookupEolInfo major with
        | none =>
          simp only [hinfo]
          exact followsEntry_quiet .noMatch rfl fun t => by
            simp only [evaluateKnown, hmajor, hvcpu, hinfo]
        | some info =>
          cases htarget : m.upgradeTarget major with
          | error e =>
            simp only [hinfo, htarget]
            exact followsEntry_error e fun t => by
              simp only [evaluateKnown, hmajor, hvcpu, hinfo, evaluateDates, htarget]
          | ok target =>
            simp only [hinfo, htarget]
            refine ⟨hm, ⟨id, engine.accountId, major, Py.str version.value, n,
              if region.value = .null then none else some (Py.str region.value), info, ⟨0⟩,
              catalogVersion⟩, target, rfl, rfl, htarget, fun t => ?_⟩
            simp only [evaluateKnown, hmajor, hvcpu, hinfo]

theorem evaluateEol_entry (fp : Arith) (config : EolRuleConfig) (catalogVersion : String)
    (id : Uuid) (facts : List Fact) :
    FollowsEntry fp config (entryOf config facts) fun t =>
      evaluateEol fp config catalogVersion id facts t := by
  cases hengine : (indexFacts facts).known "aws.rds.engine" with
  | none =>
    simp only [entryOf, evaluateEol, hengine]
    exact followsEntry_quiet (.inconclusive _) rfl fun _ => rfl
  | some engine =>
    cases hm : selectMatcher config (Py.str engine.value) with
    | none =>
      simp only [entryOf, evaluateEol, hengine, hm]
      exact followsEntry_quiet .noMatch rfl fun _ => rfl
    | some m =>
      cases hversion : (indexFacts facts).known "aws.rds.engine_version" with
      | none =>
        simp only [entryOf, evaluateEol, hengine, hm, hversion]
        exact followsEntry_quiet (.inconclusive _) rfl fun _ => rfl
      | some version =>
        cases hvcpu : (indexFacts facts).known "aws.rds.vcpu" with
        | none =>
          simp only [entryOf, evaluateEol, hengine, hm, hversion, hvcpu]
          exact followsEntry_quiet (.inconclusive _) rfl fun _ => rfl
        | some vcpu =>
          cases hregion : (indexFacts facts).known "aws.rds.region" with
          | none =>
            simp only [entryOf, evaluateEol, hengine, hm, hversion, hvcpu, hregion]
            exact followsEntry_quiet (.inconclusive _) rfl fun _ => rfl
          | some region =>
            simp only [entryOf, evaluateEol, hengine, hm, hversion, hvcpu, hregion]
            exact evaluateKnown_entry fp (List.mem_of_find?_eq_some hm) id engine version vcpu
              region catalogVersion

/-- What a matcher needs for the timeline: a tier and a price that only go up, and a payload key of
its own for the vCPUs. -/
structure Sound (m : EngineEolMatcher) : Prop where
  progressive : Progressive m
  key : m.vcpuPayloadKey ≠ "extended_support_monthly_usd"

section

variable {window : Int} {run : Date → Except PyError RuleResult}

/-- An evaluation that never alerts. -/
theorem timeline_of_quiet (hshows : ∀ t, Shows .none 0 (run t))
    (hone : ∀ t res, run t = .ok res → res.insights.length ≤ 1) : Timeline none window run := by
  refine ⟨fun {t₁ t₂} _ => ⟨.none, .none, (hshows t₁).verdict, (hshows t₂).verdict, le_refl _⟩,
    fun t => ?_, fun t => ?_, fun {t₁ t₂} _ q₁ hq => ?_, hone⟩
  · rw [(hshows t).alert]
    simp
  · rw [(hshows t).alert, (hshows t).amount]
    simp
  · rw [(hshows t₁).amount] at hq
    cases hq

/-- An evaluation that shows what the dates of an entry say, with an amount that only goes up. -/
theorem timeline_of_dates {e : Entry} {amount : Date → Rat} (hwindow : 0 ≤ window)
    (hdates : e.info.eolDate ≤ e.info.endOfExtendedSupport)
    (hamount : ∀ {t₁ t₂}, t₁ ≤ t₂ → amount t₁ ≤ amount t₂)
    (hshows : ∀ t, Shows (verdictAt window e.info t) (amount t) (run t))
    (hone : ∀ t res, run t = .ok res → res.insights.length ≤ 1) :
    Timeline (some e) window run := by
  have halert : ∀ t, Alerts (run t) ↔ e.info.eolDate.daysSince t ≤ window :=
    fun t => (hshows t).alert.trans (verdictAt_ne_none hwindow hdates t)
  refine ⟨fun {t₁ t₂} h => ⟨_, _, (hshows t₁).verdict, (hshows t₂).verdict,
    verdictAt_mono hdates h⟩, fun t => ?_, fun t => ?_, fun {t₁ t₂} h q₁ hq => ?_, hone⟩
  · rw [halert]
    simp
  · rw [(hshows t).alert, (hshows t).amount]
    by_cases hv : verdictAt window e.info t = .none <;> simp [hv]
  · rw [(hshows t₁).amount] at hq
    split at hq
    · cases hq
    · rename_i hv₁
      cases hq
      -- the alert of the earlier day is still up
      have hv₂ : verdictAt window e.info t₂ ≠ .none := by
        rw [verdictAt_ne_none hwindow hdates]
        have hfirst := (verdictAt_ne_none hwindow hdates t₁).1 hv₁
        have hdays : t₁.ordinal ≤ t₂.ordinal := h
        unfold Date.daysSince at hfirst ⊢
        omega
      exact ⟨_, (hshows t₂).amount.trans (if_neg hv₂), hamount h⟩

end

theorem timeline_of_entry (hconfig : ∀ m ∈ config.engines, Sound m)
    (hwindow : 0 ≤ config.alertWindowDays)
    (hentry : ∀ e, entryOf config facts = some e →
      0 ≤ e.vcpuCount ∧ e.info.eolDate ≤ e.info.endOfExtendedSupport)
    (catalogVersion : String) (id : Uuid) :
    Timeline (entryOf config facts) config.alertWindowDays fun t =>
      evaluateEol .exact config catalogVersion id facts t := by
  have hone : ∀ t res, evaluateEol .exact config catalogVersion id facts t = .ok res →
      res.insights.length ≤ 1 := fun t res h => (evaluateEol_sound h).single
  have hfollows := evaluateEol_entry .exact config catalogVersion id facts
  cases he : entryOf config facts with
  | none =>
    rw [he] at hfollows
    obtain ⟨r, hnil, hall⟩ := hfollows
    simp only at hall
    refine timeline_of_quiet (fun t => ?_) hone
    rw [hall t]
    cases r with
    | error e => exact ⟨rfl, by simp [Alerts], rfl⟩
    | ok res =>
      obtain ⟨insights, reasons⟩ := res
      have hempty : insights = [] := hnil _ rfl
      subst hempty
      exact ⟨rfl, by simp [Alerts, RuleResult.gap], rfl⟩
  | some e =>
    rw [he] at hfollows
    obtain ⟨hm, x, target, hinfo, hcount, htarget, hall⟩ := hfollows
    simp only at hall
    obtain ⟨hvcpu, hdates⟩ := hentry e he
    obtain ⟨hprogressive, hkey⟩ := hconfig e.m hm
    obtain ⟨rate, hrate, _, hle⟩ := hprogressive.price x.region
    refine timeline_of_dates hwindow hdates
      (fun h => monthlyAmount_tier_mono hprogressive hvcpu hle e.info h) (fun t => ?_) hone
    have hday := @evaluateDates_exact config _ { x with current := t } _ hrate hkey _ htarget
    rw [hall t, ← hinfo, ← hcount]
    exact hday

end

/-! ## The three rules -/

def eolConfigs : List EolRuleConfig := [rdsEol, mysqlEolConfig, auroraEol]

theorem eolConfigs_sound : ∀ config ∈ eolConfigs,
    0 ≤ config.alertWindowDays ∧ ∀ m ∈ config.engines, Sound m := by
  have hstandalone : Sound postgresMatcher := by
    refine ⟨⟨fun info _ _ h ht => extendedSupportTier_mono h ht, esPrice_ordered⟩, ?_⟩
    decide
  have hengine : ∀ m : EngineEolMatcher, m.computeTier = engineExtendedSupportTier →
      m.pricePerVcpuHour = esPricePerVcpuHour → m.vcpuPayloadKey = "vcpu_count" → Sound m := by
    intro m htier hprice hkey
    refine ⟨⟨?_, ?_⟩, ?_⟩
    · rw [htier]
      exact fun info _ _ h ht => engineExtendedSupportTier_mono h ht
    · rw [hprice]
      exact esPrice_ordered
    · rw [hkey]
      decide
  intro config hconfig
  simp only [eolConfigs, List.mem_cons, List.not_mem_nil, or_false] at hconfig
  rcases hconfig with rfl | rfl | rfl
  · refine ⟨by decide, fun m hm => ?_⟩
    rw [List.mem_singleton.1 hm]
    exact hstandalone
  · refine ⟨by decide, fun m hm => ?_⟩
    rw [List.mem_singleton.1 hm]
    exact hengine mysqlMatcher rfl rfl rfl
  · refine ⟨by decide, fun m hm => ?_⟩
    simp only [auroraEol, List.mem_cons, List.not_mem_nil, or_false] at hm
    rcases hm with rfl | rfl
    · exact hengine auroraMysqlMatcher rfl rfl rfl
    · exact hengine auroraPostgresMatcher rfl rfl rfl

/-! ### Their own catalogs -/

theorem eolConfigs_regular {config : EolRuleConfig} (hconfig : config ∈ eolConfigs) :
    ∀ m ∈ config.engines, Regular m := by
  simp only [eolConfigs, List.mem_cons, List.not_mem_nil, or_false] at hconfig
  rcases hconfig with rfl | rfl | rfl
  · intro m hm
    exact List.mem_singleton.1 hm ▸ postgres_regular
  · intro m hm
    exact List.mem_singleton.1 hm ▸ mysql_regular
  · intro m hm
    simp only [auroraEol, List.mem_cons, List.not_mem_nil, or_false] at hm
    rcases hm with rfl | rfl
    · exact auroraMysql_regular
    · exact auroraPostgres_regular

/-- No catalog ends the extended support of a version before the version. -/
theorem lookupEolInfo_ordered {config : EolRuleConfig} (hconfig : config ∈ eolConfigs)
    {m : EngineEolMatcher} (hm : m ∈ config.engines) {major : Json} {info : EolInfo}
    (hinfo : m.lookupEolInfo major = some info) : info.eolDate ≤ info.endOfExtendedSupport := by
  have hint : ∀ table ∈ [postgresEol, auroraMysqlEol, auroraPostgresEol],
      lookupInt table major = some info → info.eolDate ≤ info.endOfExtendedSupport := by
    intro table htable hlookup
    have hall : ∀ table ∈ [postgresEol, auroraMysqlEol, auroraPostgresEol], ∀ p ∈ table,
        p.2.eolDate ≤ p.2.endOfExtendedSupport := by decide +kernel
    obtain ⟨_, _, hmem⟩ := lookupInt_some hlookup
    exact hall table htable _ hmem
  simp only [eolConfigs, List.mem_cons, List.not_mem_nil, or_false] at hconfig
  rcases hconfig with rfl | rfl | rfl
  · rw [List.mem_singleton.1 hm] at hinfo
    exact hint postgresEol (by simp) hinfo
  · have hall : ∀ p ∈ mysqlEol, p.2.eolDate ≤ p.2.endOfExtendedSupport := by decide +kernel
    rw [List.mem_singleton.1 hm] at hinfo
    cases major with
    | str major => exact hall _ (find_some hinfo)
    | _ => cases hinfo
  · simp only [auroraEol, List.mem_cons, List.not_mem_nil, or_false] at hm
    rcases hm with rfl | rfl
    · exact hint auroraMysqlEol (by simp) hinfo
    · exact hint auroraPostgresEol (by simp) hinfo

/-- The entry of the catalog, with or without an upgrade target. -/
def foundOfKnown (m : EngineEolMatcher) (version vcpu : Fact) : Option Entry :=
  match m.parseMajor (Py.str version.value), Py.int vcpu.value with
  | .ok (some major), .ok vcpuCount =>
    (m.lookupEolInfo major).map fun info => ⟨m, info, vcpuCount⟩
  | _, _ => none

def foundEntry (config : EolRuleConfig) (facts : List Fact) : Option Entry :=
  let idx := indexFacts facts
  match idx.known "aws.rds.engine" with
  | none => none
  | some engine =>
    match selectMatcher config (Py.str engine.value) with
    | none => none
    | some m =>
      match idx.known "aws.rds.engine_version", idx.known "aws.rds.vcpu",
        idx.known "aws.rds.region" with
      | some version, some vcpu, some _ => foundOfKnown m version vcpu
      | _, _, _ => none

theorem entryOfKnown_eq_found {m : EngineEolMatcher} (hm : Regular m) (version vcpu : Fact) :
    entryOfKnown m version vcpu = foundOfKnown m version vcpu := by
  unfold entryOfKnown foundOfKnown
  cases m.parseMajor (Py.str version.value) with
  | error e => rfl
  | ok parsed =>
    cases parsed with
    | none => rfl
    | some major =>
      cases Py.int vcpu.value with
      | error e => rfl
      | ok count =>
        cases hinfo : m.lookupEolInfo major with
        | none => simp [hinfo]
        | some info =>
          obtain ⟨target, htarget⟩ := hm.upgrade hinfo
          simp [hinfo, htarget]

/-- An entry that is found can be priced: each version of a catalog has an upgrade target. -/
theorem entryOf_eq_found {config : EolRuleConfig} (hconfig : config ∈ eolConfigs)
    (facts : List Fact) : entryOf config facts = foundEntry config facts := by
  cases hengine : (indexFacts facts).known "aws.rds.engine" with
  | none => simp only [entryOf, foundEntry, hengine]
  | some engine =>
    cases hm : selectMatcher config (Py.str engine.value) with
    | none => simp only [entryOf, foundEntry, hengine, hm]
    | some m =>
      have hregular := eolConfigs_regular hconfig m (List.mem_of_find?_eq_some hm)
      simp only [entryOf, foundEntry, hengine, hm, entryOfKnown_eq_found hregular]

theorem lookup_of_foundEntry {config : EolRuleConfig} {facts : List Fact} {e : Entry}
    (h : foundEntry config facts = some e) :
    e.m ∈ config.engines ∧ ∃ major, e.m.lookupEolInfo major = some e.info := by
  unfold foundEntry at h
  cases hengine : (indexFacts facts).known "aws.rds.engine" with
  | none => simp [hengine] at h
  | some engine =>
    cases hm : selectMatcher config (Py.str engine.value) with
    | none => simp [hengine, hm] at h
    | some m =>
      simp only [hengine, hm] at h
      split at h
      · unfold foundOfKnown at h
        split at h
        · rename_i major _ _ _
          obtain ⟨info, hinfo, rfl⟩ := Option.map_eq_some_iff.1 h
          exact ⟨List.mem_of_find?_eq_some hm, major, hinfo⟩
        · cases h
      · cases h

/-- Over the catalogs of the rules a nonnegative vCPU count is all that the timeline needs. -/
theorem own_catalog_timeline {config : EolRuleConfig} (hconfig : config ∈ eolConfigs)
    {facts : List Fact} (hvcpu : ∀ e, foundEntry config facts = some e → 0 ≤ e.vcpuCount)
    (catalogVersion : String) (id : Uuid) :
    Timeline (foundEntry config facts) config.alertWindowDays fun t =>
      evaluateEol .exact config catalogVersion id facts t := by
  obtain ⟨hwindow, hsound⟩ := eolConfigs_sound config hconfig
  rw [← entryOf_eq_found hconfig]
  refine timeline_of_entry hsound hwindow (fun e he => ?_) catalogVersion id
  rw [entryOf_eq_found hconfig] at he
  obtain ⟨hm, major, hinfo⟩ := lookup_of_foundEntry he
  exact ⟨hvcpu e he, lookupEolInfo_ordered hconfig hm hinfo⟩

/-! ### Any catalog -/

/-- Over any catalog and fixed facts the three rules only escalate, alert inside the window and
after it, and never lower the amount. -/
theorem eol_timeline {config : EolRuleConfig} (hconfig : config ∈ eolConfigs)
    (lookup : EngineEolMatcher → Json → Option EolInfo) {facts : List Fact}
    (hentry : ∀ e, entryOf (withCatalog lookup config) facts = some e →
      0 ≤ e.vcpuCount ∧ e.info.eolDate ≤ e.info.endOfExtendedSupport)
    (catalogVersion : String) (id : Uuid) :
    Timeline (entryOf (withCatalog lookup config) facts) config.alertWindowDays fun t =>
      evaluateEol .exact (withCatalog lookup config) catalogVersion id facts t := by
  obtain ⟨hwindow, hsound⟩ := eolConfigs_sound config hconfig
  refine @timeline_of_entry (withCatalog lookup config) facts (fun m hm => ?_) hwindow hentry
    catalogVersion id
  obtain ⟨m', hm', rfl⟩ := List.mem_map.1 hm
  exact ⟨⟨(hsound m' hm').progressive.tier, (hsound m' hm').progressive.price⟩, (hsound m' hm').key⟩

/-- An engine version on two vCPUs in Ireland. -/
def twoVcpus (engine version : String) : List Fact :=
  [("engine", .str engine), ("engine_version", .str version), ("vcpu", .int 2),
    ("region", .str "eu-west-1")].map fun p =>
      ⟨some 0, some 0, "aws.rds", p.1, p.2, .known, "aws_rds", 0⟩

/-- Each rule prices the facts, and its evaluations follow the timeline of their entry. -/
def Priced (config : EolRuleConfig) (facts : List Fact) : Prop :=
  (∃ e, entryOf config facts = some e) ∧ Timeline (entryOf config facts) 90 fun t =>
    evaluateEol .exact config awsVersion 0 facts t

theorem three_engines_timeline : Priced rdsEol (twoVcpus "postgres" "13.4") ∧
    Priced mysqlEolConfig (twoVcpus "mysql" "5.7.44") ∧
    Priced auroraEol (twoVcpus "aurora-mysql" "5.7.mysql_aurora.2.11.2") := by
  have hread : ∀ {config : EolRuleConfig} {facts : List Fact} {eol last : Date},
      (entryOf config facts).map (fun e => (e.vcpuCount, e.info.eolDate,
        e.info.endOfExtendedSupport)) = some (2, eol, last) → eol ≤ last →
      (∃ e, entryOf config facts = some e) ∧ ∀ e, entryOf config facts = some e →
        0 ≤ e.vcpuCount ∧ e.info.eolDate ≤ e.info.endOfExtendedSupport := by
    intro config facts eol last hread hle
    obtain ⟨e, he, hfields⟩ := Option.map_eq_some_iff.1 hread
    refine ⟨⟨e, he⟩, fun e' he' => ?_⟩
    cases he.symm.trans he'
    obtain ⟨hcount, hdates⟩ := Prod.mk.inj hfields
    obtain ⟨heol, hlast⟩ := Prod.mk.inj hdates
    rw [hcount, heol, hlast]
    exact ⟨by decide, hle⟩
  obtain ⟨hpostgres, hpostgres'⟩ := @hread rdsEol (twoVcpus "postgres" "13.4")
    (.ofYmd 2026 2 28) (.ofYmd 2029 2 28) (by decide +kernel) (by decide)
  obtain ⟨hmysql, hmysql'⟩ := @hread mysqlEolConfig (twoVcpus "mysql" "5.7.44")
    (.ofYmd 2024 2 29) (.ofYmd 2029 6 30) (by decide +kernel) (by decide)
  obtain ⟨haurora, haurora'⟩ := @hread auroraEol
    (twoVcpus "aurora-mysql" "5.7.mysql_aurora.2.11.2")
    (.ofYmd 2024 10 31) (.ofYmd 2029 6 30) (by decide +kernel) (by decide)
  exact ⟨⟨hpostgres, @eol_timeline rdsEol (by simp [eolConfigs]) (fun m => m.lookupEolInfo) _
      hpostgres' awsVersion 0⟩,
    ⟨hmysql, @eol_timeline mysqlEolConfig (by simp [eolConfigs]) (fun m => m.lookupEolInfo) _
      hmysql' awsVersion 0⟩,
    ⟨haurora, @eol_timeline auroraEol (by simp [eolConfigs]) (fun m => m.lookupEolInfo) _
      haurora' awsVersion 0⟩⟩

end Eol

end Constat
