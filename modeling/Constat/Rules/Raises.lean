import Constat.Rules.Registry

/-!
# Rules.Raises

When an evaluation raises, in terms of the facts it is given.

* `isInfinite`, `isHuge`, `isContainer` — the values no rule's exception filter expects: an
  infinity, an integer beyond the range of a float, a list or a dict where a string is looked up.
* `oddDigits` — a text that `isdigit` accepts and `int` does not.
* `Eol.Trips`, `Storage.Gp2Trips`, `Storage.UnattachedTrips`, `Storage.OrphanTrips` and
  `Storage.StoppedTrips` — the facts on which a rule raises.
* `raises_iff` — a rule raises exactly on those facts.
-/

namespace Constat

open Catalog

def Raises {α : Type} (r : Except PyError α) : Prop := ∃ e, r = .error e

@[simp] theorem not_raises_ok {α : Type} (a : α) : ¬ Raises (.ok a : Except PyError α) := by
  rintro ⟨e, h⟩; cases h

@[simp] theorem raises_error {α : Type} (e : PyError) : Raises (.error e : Except PyError α) :=
  ⟨e, rfl⟩

/-! ## Numbers -/

namespace Py

def isInfinite : Json → Bool
  | .float (.inf _) => true
  | _ => false

def isNumber (value : Json) : Bool := (int value).toOption.isSome

/-- The integer has no float. -/
def isHugeInt (n : Int) : Bool := (Arith.double.ofInt n).toOption.isNone

/-- The value is a number, and `int` of it has no float. -/
def isHuge (value : Json) : Bool := (int value).toOption.any isHugeInt

/-- A list or a dict: it cannot be the key of a lookup. -/
def isContainer (value : Json) : Bool := (unhashable value).isSome

theorem int_error {value : Json} {e : PyError} (h : int value = .error e) :
    ((e.cls = "TypeError" ∨ e.cls = "ValueError") ↔ isInfinite value = false) ∧
      isNumber value = false := by
  refine ⟨?_, by rw [isNumber, h]; rfl⟩
  cases value with
  | bool b => cases h
  | int i => cases h
  | float f =>
    cases f with
    | finite q => cases h
    | inf neg => cases h; simp [isInfinite, intOfInf]
    | nan => cases h; simp [isInfinite, intOfNan]
  | str s =>
    simp only [int] at h
    split at h
    · cases h
    · cases h; simp [isInfinite, intOfText]
  | null => cases h; simp [isInfinite, intOfType]
  | list xs => cases h; simp [isInfinite, intOfType]
  | obj fields => cases h; simp [isInfinite, intOfType]

theorem int_ok {value : Json} {n : Int} (h : int value = .ok n) :
    isInfinite value = false ∧ isNumber value = true ∧ isHuge value = isHugeInt n := by
  refine ⟨?_, by rw [isNumber, h]; rfl, by rw [isHuge, h]; rfl⟩
  cases value with
  | float f =>
    cases f with
    | inf neg => cases h
    | _ => rfl
  | _ => rfl

/-! ## Digits -/

/-- `isdigit` takes a digit that is not decimal, and a literal of any length; `int` does not. -/
def oddDigits (cs : List Char) : Bool :=
  isdigit cs && (cs.any (fun c => (decimalValue c).isNone) || maxIntDigits < cs.length)

def isDigitCode (n : Nat) : Bool :=
  decimalZeros.any (fun z => z ≤ n ∧ n < z + 10) ||
    otherDigits.any fun r => r.1 ≤ n ∧ n ≤ r.2

theorem isdigit_iff {cs : List Char} :
    isdigit cs = true ↔ cs ≠ [] ∧ ∀ c ∈ cs, isDigitCode c.toNat = true := by
  have hvalue : ∀ c, (decimalValue c).isSome =
      decimalZeros.any fun z => z ≤ c.toNat ∧ c.toNat < z + 10 := by
    intro c
    rw [decimalValue, Option.isSome_map, Bool.eq_iff_iff, List.find?_isSome, List.any_eq_true]
  simp only [isdigit, Bool.and_eq_true, List.all_eq_true, hvalue, isDigitCode]
  simp

theorem isSpace_of_digit {c : Char} (h : isDigitCode c.toNat = true) : isSpace c = false := by
  have hspaces : ∀ n ∈ [0x9, 0xa, 0xb, 0xc, 0xd, 0x1c, 0x1d, 0x1e, 0x1f, 0x20, 0x85, 0xa0, 0x1680,
      0x2000, 0x2001, 0x2002, 0x2003, 0x2004, 0x2005, 0x2006, 0x2007, 0x2008, 0x2009, 0x200a, 0x2028,
      0x2029, 0x202f, 0x205f, 0x3000], isDigitCode n = false := by decide +kernel
  by_contra hs
  have hmem := of_decide_eq_true (Bool.not_eq_false _ ▸ hs)
  exact Bool.false_ne_true ((hspaces _ hmem).symm.trans h)

theorem strip_digits {cs : List Char} (h : ∀ c ∈ cs, isDigitCode c.toNat = true) :
    strip cs = cs := by
  have hdrop : ∀ l : List Char, (∀ c ∈ l, isDigitCode c.toNat = true) → l.dropWhile isSpace = l := by
    intro l hl
    cases l with
    | nil => rfl
    | cons c l => rw [List.dropWhile_cons_of_neg]; simp [isSpace_of_digit (hl c List.mem_cons_self)]
  rw [strip, hdrop cs h, hdrop cs.reverse fun c hc => h c (List.mem_reverse.1 hc),
    List.reverse_reverse]

theorem digitValues_cons {c c' : Char} {cs : List Char} (h : c' ≠ '_') {d : Nat}
    (hc : decimalValue c = some d) :
    digitValues (c :: c' :: cs) = (digitValues (c' :: cs)).map (d :: ·) := by
  conv => lhs; rw [digitValues.eq_def]
  simp only [hc]

theorem digitValues_digits {cs : List Char} (hne : cs ≠ [])
    (h : ∀ c ∈ cs, isDigitCode c.toNat = true) :
    (digitValues cs).map List.length =
      if cs.any (fun c => (decimalValue c).isNone) then none else some cs.length := by
  induction cs with
  | nil => exact absurd rfl hne
  | cons c cs ih =>
    have hcs := fun c' hc' => h c' (List.mem_cons_of_mem c hc')
    cases hc : decimalValue c with
    | none => simp [digitValues, hc]
    | some d =>
      cases cs with
      | nil => simp [digitValues, hc]
      | cons c' cs =>
        have hne' : c' ≠ '_' := by
          rintro rfl
          have hunderscore : isDigitCode '_'.toNat = false := by decide +kernel
          exact Bool.false_ne_true (hunderscore.symm.trans (hcs '_' List.mem_cons_self))
        have hrest := ih (List.cons_ne_nil c' cs) hcs
        have hany : ((c :: c' :: cs).any fun c => (decimalValue c).isNone) =
            (c' :: cs).any fun c => (decimalValue c).isNone := by simp [hc]
        rw [digitValues_cons hne' hc, hany]
        cases hd : digitValues (c' :: cs) with
        | none => rw [hd] at hrest; split at hrest <;> simp_all
        | some ds => rw [hd] at hrest; split at hrest <;> simp_all

/-- On digits, `int` reads the text exactly when all of them are decimal and there are few enough. -/
theorem parseInt_digits {cs : List Char} (h : isdigit cs = true) :
    parseInt cs = none ↔ oddDigits cs = true := by
  obtain ⟨hne, hdigits⟩ := isdigit_iff.1 h
  have hlength := digitValues_digits hne hdigits
  have hsign : ∀ sign ∈ ['-', '+'], ∀ rest, cs ≠ sign :: rest := by
    intro sign hsign rest hcs
    have hminus : isDigitCode '-'.toNat = false := by decide +kernel
    have hplus : isDigitCode '+'.toNat = false := by decide +kernel
    have hno : ∀ sign ∈ ['-', '+'], isDigitCode sign.toNat = false := by
      simp only [List.forall_mem_cons, hminus, hplus, List.not_mem_nil, false_implies,
        implies_true, and_self]
    have hyes := hdigits sign (hcs ▸ List.mem_cons_self)
    exact Bool.false_ne_true ((hno sign hsign).symm.trans hyes)
  rw [oddDigits, h, Bool.true_and, parseInt, strip_digits hdigits]
  split
  rename_i neg body hsigned
  have hbody : body = cs := by
    split at hsigned
    · exact absurd rfl (hsign '-' (by simp) _)
    · exact absurd rfl (hsign '+' (by simp) _)
    · exact (congrArg Prod.snd hsigned).symm
  rw [hbody]
  cases hvalues : digitValues cs with
  | none =>
    rw [hvalues] at hlength
    split at hlength
    · rename_i hany; simp [hany]
    · cases hlength
  | some ds =>
    rw [hvalues] at hlength
    split at hlength
    · cases hlength
    · rename_i hany
      have hlen : ds.length = cs.length := Option.some.inj hlength
      simp [hany, hlen]

end Py

/-! ## Prices -/

namespace Catalog

/-- The kind has a price in the default region, and so in every region. -/
def isPriced (grid : List (String × List (String × Rat))) : Json → Bool
  | .str kind => ((find grid ebsDefaultRegion).bind fun rates => find rates kind).isSome
  | _ => false

theorem gridPrice_container (fp : Arith) (grid : List (String × List (String × Rat)))
    {region kind : Json} (h : Py.isContainer region = true ∨ Py.isContainer kind = true) :
    Raises (gridPrice fp grid region kind) := by
  unfold gridPrice
  cases hregion : Py.unhashable region with
  | some e => exact raises_error e
  | none =>
    cases hkind : Py.unhashable kind with
    | some e => exact raises_error e
    | none => simp [Py.isContainer, hregion, hkind] at h

theorem gridPrice_hashable (fp : Arith) (grid : List (String × List (String × Rat)))
    {region kind : Json} (hregion : Py.isContainer region = false)
    (hkind : Py.isContainer kind = false) : ∃ price, gridPrice fp grid region kind = .ok price := by
  rw [Py.isContainer, Option.isSome_eq_false_iff, Option.isNone_iff_eq_none] at hregion hkind
  unfold gridPrice
  rw [hregion, hkind]
  cases region <;> cases kind <;> exact ⟨_, rfl⟩

theorem gridPrice_default {fp : Arith} {grid : List (String × List (String × Rat))} {kind : Json}
    {price : Option GbPrice}
    (h : gridPrice fp grid (.str ebsDefaultRegion) kind = .ok price) :
    price.isSome = isPriced grid kind := by
  unfold gridPrice at h
  cases kind with
  | str kind => cases h; rw [Option.isSome_map]; rfl
  | list xs => cases h
  | obj fields => cases h
  | _ => cases h; rfl

/-- The regions of a grid price the same kinds. -/
def SameKinds (grid : List (String × List (String × Rat))) : Prop :=
  ∀ g ∈ grid, ∀ p ∈ g.2, isPriced grid (.str p.1) = true

theorem gridPrice_priced {fp : Arith} {grid : List (String × List (String × Rat))}
    (hgrid : SameKinds grid) {region kind : Json} {price : GbPrice}
    (h : gridPrice fp grid region kind = .ok (some price)) : isPriced grid kind = true := by
  unfold gridPrice at h
  split at h
  · cases h
  · cases h
  · split at h
    · rename_i region kind _ _
      obtain ⟨rate, hrate, _⟩ := Option.map_eq_some_iff.1 (Except.ok.inj h)
      obtain ⟨rates, hrates, hrate⟩ := Option.bind_eq_some_iff.1 hrate
      exact hgrid _ (find_some hrates) _ (find_some hrate)
    · cases h

/-- A lookup raises on a list or a dict; else it finds a price when there is one for the kind. -/
theorem pricePerGbMonth_spec (fp : Arith) {grid : List (String × List (String × Rat))}
    (hgrid : SameKinds grid) (kind region : Json) :
    ((Py.isContainer region = true ∨ Py.isContainer kind = true) ∧
        Raises (pricePerGbMonth fp grid kind region)) ∨
      ((Py.isContainer region = false ∧ Py.isContainer kind = false) ∧
        ∃ price, pricePerGbMonth fp grid kind region = .ok price ∧
          price.isSome = isPriced grid kind) := by
  simp only [pricePerGbMonth]
  by_cases hnull : region = .null
  · subst hnull
    rw [if_pos rfl]
    by_cases hkind : Py.isContainer kind = true
    · exact .inl ⟨.inr hkind, gridPrice_container fp grid (.inr hkind)⟩
    · obtain ⟨price, hprice⟩ := gridPrice_hashable fp grid
        (rfl : Py.isContainer (.str ebsDefaultRegion) = false) (Bool.eq_false_iff.2 hkind)
      exact .inr ⟨⟨rfl, Bool.eq_false_iff.2 hkind⟩, price, hprice, gridPrice_default hprice⟩
  · rw [if_neg hnull]
    by_cases hcontainer : Py.isContainer region = true ∨ Py.isContainer kind = true
    · obtain ⟨e, he⟩ := gridPrice_container fp grid hcontainer
      exact .inl ⟨hcontainer, e, by rw [he]⟩
    · rw [not_or] at hcontainer
      have hregion := Bool.eq_false_iff.2 hcontainer.1
      have hkind := Bool.eq_false_iff.2 hcontainer.2
      obtain ⟨price, hprice⟩ := gridPrice_hashable fp grid hregion hkind
      refine .inr ⟨⟨hregion, hkind⟩, ?_⟩
      rw [hprice]
      cases price with
      | none =>
        obtain ⟨price, hprice⟩ := gridPrice_hashable fp grid
          (rfl : Py.isContainer (.str ebsDefaultRegion) = false) hkind
        exact ⟨price, hprice, gridPrice_default hprice⟩
      | some price => exact ⟨some price, rfl, (gridPrice_priced hgrid hprice).symm⟩

theorem storage_sameKinds : SameKinds storageGridUsd := by unfold SameKinds; decide +kernel

theorem snapshot_sameKinds : SameKinds snapshotGridUsd := by unfold SameKinds; decide +kernel

end Catalog

/-! ## The storage rules -/

namespace Storage

/-- The computation stops at an exception, not at a reason. -/
def Aborts {α : Type} (r : Except Stop α) : Prop := ∃ e, r = .error (.raised e)

@[simp] theorem not_aborts_ok {α : Type} (a : α) : ¬ Aborts (.ok a : Except Stop α) := by
  rintro ⟨e, h⟩; cases h

@[simp] theorem not_aborts_inconclusive {α : Type} (reason : String) :
    ¬ Aborts (.error (.inconclusive reason) : Except Stop α) := by
  rintro ⟨e, h⟩; cases h

@[simp] theorem aborts_raised {α : Type} (e : PyError) :
    Aborts (.error (.raised e) : Except Stop α) := ⟨e, rfl⟩

theorem evaluateStorage_raises {fp : Arith} {config : StorageRuleConfig} {version : String}
    {id : Uuid} {facts : List Fact} {today : Date} :
    Raises (evaluateStorage fp config version id facts today) ↔
      (indexFacts facts).missing config.requiredFacts = [] ∧
        (Aborts (config.shouldEmit (indexFacts facts)) ∨
          (config.shouldEmit (indexFacts facts) = .ok true ∧
            Aborts (config.computeCost fp (indexFacts facts) today))) := by
  simp only [evaluateStorage]
  by_cases hmissing : (indexFacts facts).missing config.requiredFacts = []
  · rw [if_neg (not_not.2 hmissing)]
    simp only [hmissing, true_and]
    rcases config.shouldEmit (indexFacts facts) with stop | emit
    · cases stop <;> simp
    · cases emit with
      | false => simp
      | true =>
        rcases config.computeCost fp (indexFacts facts) today with stop | cost
        · cases stop <;> simp
        · cases cost <;> simp
  · simp [hmissing]

theorem intFact_cases (idx : FactIndex) (key : String) :
    (Py.isInfinite (idx.value key) = true ∧ Py.isNumber (idx.value key) = false ∧
        Py.isHuge (idx.value key) = false ∧ Aborts (intFact idx key)) ∨
      (Py.isInfinite (idx.value key) = false ∧ Py.isNumber (idx.value key) = false ∧
        Py.isHuge (idx.value key) = false ∧
        ∃ reason, intFact idx key = .error (.inconclusive reason)) ∨
      ∃ n, intFact idx key = .ok n ∧ Py.isInfinite (idx.value key) = false ∧
        Py.isNumber (idx.value key) = true ∧ Py.isHuge (idx.value key) = Py.isHugeInt n := by
  rw [intFact]
  cases hint : Py.int (idx.value key) with
  | ok n => exact .inr (.inr ⟨n, rfl, Py.int_ok hint⟩)
  | error e =>
    obtain ⟨hcls, hnumber⟩ := Py.int_error hint
    have hhuge : Py.isHuge (idx.value key) = false := by rw [Py.isHuge, hint]; rfl
    by_cases hinf : Py.isInfinite (idx.value key) = true
    · have hno : ¬ (e.cls = "TypeError" ∨ e.cls = "ValueError") := by simp [hcls, hinf]
      exact .inl ⟨hinf, hnumber, hhuge, e, if_neg hno⟩
    · have hfin := Bool.eq_false_iff.2 hinf
      exact .inr (.inl ⟨hfin, hnumber, hhuge, key ++ ".malformed", if_pos (hcls.2 hfin)⟩)

theorem monthlyFor_raises (rate : PyFloat) (n : Int) :
    Raises (monthlyFor .double rate n) ↔ Py.isHugeInt n = true := by
  rw [monthlyFor, Py.isHugeInt]
  cases Arith.double.ofInt n <;> simp [Except.toOption]

/-- Pricing `size` GB of `kind` in `region` raises: the size is infinite, or it is a number and the
lookup or the product raises. -/
def priceTrips (grid : List (String × List (String × Rat))) (size region kind : Json) : Bool :=
  Py.isInfinite size || (Py.isNumber size && (Py.isContainer region || Py.isContainer kind)) ||
    (Py.isHuge size && isPriced grid kind)

theorem unattachedCost_aborts (idx : FactIndex) : Aborts (unattachedCost .double idx) ↔
    priceTrips storageGridUsd (idx.value "aws.ec2.volume.size_gb")
      (idx.value "aws.ec2.volume.region") (idx.value "aws.ec2.volume.volume_type") = true := by
  simp only [unattachedCost, priceTrips]
  rcases intFact_cases idx "aws.ec2.volume.size_gb" with
    ⟨hinf, hnumber, hhuge, e, he⟩ | ⟨hinf, hnumber, hhuge, reason, he⟩ | ⟨n, hn, hinf, hnumber, hhuge⟩
  · simp [he, hinf]
  · simp [he, hinf, hnumber, hhuge]
  · rw [hn]
    simp only [hinf, hnumber, hhuge]
    rcases pricePerGbMonth_spec .double storage_sameKinds (idx.value "aws.ec2.volume.volume_type")
      (idx.value "aws.ec2.volume.region") with
      ⟨hcontainer, e, he⟩ | ⟨⟨hregion, hkind⟩, price, hprice, hpriced⟩
    · have hcontainers : (Py.isContainer (idx.value "aws.ec2.volume.region") ||
          Py.isContainer (idx.value "aws.ec2.volume.volume_type")) = true := by simpa using hcontainer
      simp [ebsPricePerGbMonth, he, hcontainers]
    · rw [ebsPricePerGbMonth, hprice]
      cases price with
      | none =>
        have hno : isPriced storageGridUsd (idx.value "aws.ec2.volume.volume_type") = false := by
          rw [← hpriced]; rfl
        simp [hregion, hkind, hno]
      | some price =>
        have hyes : isPriced storageGridUsd (idx.value "aws.ec2.volume.volume_type") = true := by
          rw [← hpriced]; rfl
        simp only [hregion, hkind, hyes, Bool.or_false, Bool.and_false, Bool.and_true, Bool.false_or]
        rw [← monthlyFor_raises price.usdPerGbMonth n]
        cases monthlyFor .double price.usdPerGbMonth n <;> simp

theorem gp2Cost_aborts (idx : FactIndex) : Aborts (gp2Cost .double idx) ↔
    priceTrips storageGridUsd (idx.value "aws.ec2.volume.size_gb")
      (idx.value "aws.ec2.volume.region") (.str "gp2") = true := by
  have hgp2 : isPriced storageGridUsd (.str "gp2") = true := by decide +kernel
  have hgp3 : isPriced storageGridUsd (.str "gp3") = true := by decide +kernel
  have hstr : ∀ s, Py.isContainer (.str s) = false := fun _ => rfl
  simp only [gp2Cost, priceTrips, hgp2, hstr]
  rcases intFact_cases idx "aws.ec2.volume.size_gb" with
    ⟨hinf, hnumber, hhuge, e, he⟩ | ⟨hinf, hnumber, hhuge, reason, he⟩ | ⟨n, hn, hinf, hnumber, hhuge⟩
  · simp [he, hinf]
  · simp [he, hinf, hnumber, hhuge]
  · rw [hn]
    simp only [hinf, hnumber, hhuge]
    rcases pricePerGbMonth_spec .double storage_sameKinds (.str "gp2")
      (idx.value "aws.ec2.volume.region") with
      ⟨hcontainer, e, he⟩ | ⟨⟨hregion, _⟩, price, hprice, hpriced⟩
    · simp only [hstr, Bool.false_eq_true, or_false] at hcontainer
      simp [ebsPricePerGbMonth, he, hcontainer]
    · rcases pricePerGbMonth_spec .double storage_sameKinds (.str "gp3")
        (idx.value "aws.ec2.volume.region") with
        ⟨hcontainer, _⟩ | ⟨_, price', hprice', hpriced'⟩
      · simp [hstr, hregion] at hcontainer
      · rw [hgp2] at hpriced
        rw [hgp3] at hpriced'
        obtain ⟨gp2, rfl⟩ := Option.isSome_iff_exists.1 hpriced
        obtain ⟨gp3, rfl⟩ := Option.isSome_iff_exists.1 hpriced'
        simp only [ebsPricePerGbMonth, hprice, hprice', hregion, Bool.or_self, Bool.and_false,
          Bool.and_true, Bool.false_or]
        have hraises := monthlyFor_raises gp2.usdPerGbMonth n
        have hraises' := monthlyFor_raises gp3.usdPerGbMonth n
        rw [← hraises'] at hraises
        rw [← hraises']
        cases hcurrent : monthlyFor .double gp2.usdPerGbMonth n with
        | error e => rw [hcurrent] at hraises; simp [hraises.1 (raises_error e)]
        | ok current =>
          cases htarget : monthlyFor .double gp3.usdPerGbMonth n with
          | error e =>
            rw [hcurrent, htarget] at hraises
            exact absurd (hraises.2 (raises_error e)) (not_raises_ok current)
          | ok target =>
            simp only [not_raises_ok, iff_false]
            split <;> simp

theorem snapshotCost_aborts (idx : FactIndex) (today : Date) : Aborts (snapshotCost .double idx today) ↔
    priceTrips snapshotGridUsd (idx.value "aws.ec2.snapshot.size_gb")
      (idx.value "aws.ec2.snapshot.region") (.str (storageTier idx)) = true := by
  have hstr : ∀ s, Py.isContainer (.str s) = false := fun _ => rfl
  simp only [snapshotCost, priceTrips, hstr]
  rcases intFact_cases idx "aws.ec2.snapshot.size_gb" with
    ⟨hinf, hnumber, hhuge, e, he⟩ | ⟨hinf, hnumber, hhuge, reason, he⟩ | ⟨n, hn, hinf, hnumber, hhuge⟩
  · simp [he, hinf]
  · simp [he, hinf, hnumber, hhuge]
  · rw [hn]
    simp only [hinf, hnumber, hhuge]
    rcases pricePerGbMonth_spec .double snapshot_sameKinds (.str (storageTier idx))
      (idx.value "aws.ec2.snapshot.region") with
      ⟨hcontainer, e, he⟩ | ⟨⟨hregion, _⟩, price, hprice, hpriced⟩
    · simp only [hstr, Bool.false_eq_true, or_false] at hcontainer
      simp [ebsSnapshotPricePerGbMonth, he, hcontainer]
    · rw [ebsSnapshotPricePerGbMonth, hprice]
      cases price with
      | none =>
        have hno : isPriced snapshotGridUsd (.str (storageTier idx)) = false := by
          rw [← hpriced]; rfl
        simp [hregion, hno]
      | some price =>
        have hyes : isPriced snapshotGridUsd (.str (storageTier idx)) = true := by
          rw [← hpriced]; rfl
        simp only [hregion, hyes, Bool.or_self, Bool.and_false, Bool.and_true, Bool.false_or]
        rw [← monthlyFor_raises price.usdPerGbMonth n]
        cases monthlyFor .double price.usdPerGbMonth n with
        | error e => simp
        | ok cost =>
          cases ageDays (idx.value "aws.ec2.snapshot.start_time") today <;> simp

/-! ### Which facts trip a rule -/

def Gp2Trips (idx : FactIndex) : Prop :=
  idx.missing ebsGp2ToGp3.requiredFacts = [] ∧
    idx.value "aws.ec2.volume.volume_type" = .str "gp2" ∧
      priceTrips storageGridUsd (idx.value "aws.ec2.volume.size_gb")
        (idx.value "aws.ec2.volume.region") (.str "gp2") = true

def UnattachedTrips (idx : FactIndex) : Prop :=
  idx.missing ebsUnattached.requiredFacts = [] ∧
    idx.value "aws.ec2.volume.state" = .str unattachedState ∧
      priceTrips storageGridUsd (idx.value "aws.ec2.volume.size_gb")
        (idx.value "aws.ec2.volume.region") (idx.value "aws.ec2.volume.volume_type") = true

def OrphanTrips (idx : FactIndex) : Prop :=
  idx.missing snapshotOrphan.requiredFacts = [] ∧
    idx.value "aws.ec2.snapshot.state" = .str completedState ∧
      idx.value "aws.ec2.snapshot.volume_exists" = .bool false ∧
        referencesAmi (idx.value "aws.ec2.snapshot.description") = false ∧
          priceTrips snapshotGridUsd (idx.value "aws.ec2.snapshot.size_gb")
            (idx.value "aws.ec2.snapshot.region") (.str (storageTier idx)) = true

/-- A volume with a priced type and a size that is not a number, or too large a one. -/
def volumeTrips (vol : List (String × Json)) : Bool :=
  let field := fun k => (Json.get? vol k).getD .null
  field "volume_type" ≠ .null ∧ isPriced storageGridUsd (.str (Py.str (field "volume_type"))) ∧
    field "size_gb" ≠ .null ∧
      (Py.isNumber (field "size_gb") = false ∨ Py.isHuge (field "size_gb") = true)

def StoppedTrips (idx : FactIndex) : Prop :=
  (∃ state ∈ idx.known "aws.ec2.instance.state", state.value = .str stoppedState) ∧
    (idx.known "aws.ec2.instance.region").isSome = true ∧
      ∃ volumes ∈ idx.get? "aws.ec2.instance.attached_volumes", ∃ attached ∈ dicts volumes.value,
        ∃ vol ∈ attached, volumeTrips vol = true

theorem gp2_raises {facts : List Fact} {version : String} {id : Uuid} {today : Date} :
    Raises (evaluateStorage .double ebsGp2ToGp3 version id facts today) ↔
      Gp2Trips (indexFacts facts) := by
  rw [evaluateStorage_raises]
  simp only [Gp2Trips, ebsGp2ToGp3, not_aborts_ok, false_or, Except.ok.injEq, decide_eq_true_eq,
    gp2Cost_aborts]

theorem unattached_raises {facts : List Fact} {version : String} {id : Uuid} {today : Date} :
    Raises (evaluateStorage .double ebsUnattached version id facts today) ↔
      UnattachedTrips (indexFacts facts) := by
  rw [evaluateStorage_raises]
  simp only [UnattachedTrips, ebsUnattached, not_aborts_ok, false_or, Except.ok.injEq,
    decide_eq_true_eq, unattachedCost_aborts]

theorem snapshotShouldEmit_ok {idx : FactIndex} : snapshotShouldEmit idx = .ok true ↔
    idx.value "aws.ec2.snapshot.state" = .str completedState ∧
      idx.value "aws.ec2.snapshot.volume_exists" = .bool false ∧
        referencesAmi (idx.value "aws.ec2.snapshot.description") = false := by
  rw [snapshotShouldEmit]
  by_cases hstate : idx.value "aws.ec2.snapshot.state" = .str completedState
  · rw [if_neg (not_not.2 hstate)]
    split
    · rename_i h; simp [h]
    · rename_i h; simp [h, hstate]
    · rename_i h h'
      have hno : idx.value "aws.ec2.snapshot.volume_exists" ≠ .bool false := h'
      simp [hno]
  · simp [hstate]

theorem orphan_raises {facts : List Fact} {version : String} {id : Uuid} {today : Date} :
    Raises (evaluateStorage .double snapshotOrphan version id facts today) ↔
      OrphanTrips (indexFacts facts) := by
  have hemit : ¬ Aborts (snapshotShouldEmit (indexFacts facts)) := by
    rw [snapshotShouldEmit]
    split
    · simp
    · split <;> simp
  rw [evaluateStorage_raises]
  simp only [OrphanTrips, snapshotOrphan, hemit, false_or, snapshotShouldEmit_ok,
    snapshotCost_aborts, and_assoc]

theorem addVolume_raises (region : String) (b : Breakdown) (vol : List (String × Json)) :
    Raises (addVolume .double region b vol) ↔ volumeTrips vol = true := by
  simp only [addVolume, volumeTrips, decide_eq_true_eq]
  generalize (Json.get? vol "volume_type").getD .null = kind
  generalize (Json.get? vol "size_gb").getD .null = size
  by_cases hkind : kind = .null
  · simp [hkind]
  · rw [if_neg hkind]
    rcases pricePerGbMonth_spec .double storage_sameKinds (.str (Py.str kind)) (.str region) with
      ⟨hcontainer, _⟩ | ⟨_, price, hprice, hpriced⟩
    · simp [Py.isContainer, Py.unhashable] at hcontainer
    · rw [ebsPricePerGbMonth, hprice, ← hpriced]
      cases price with
      | none => simp
      | some price =>
        by_cases hsize : size = .null
        · simp [hsize]
        · simp only [if_neg hsize]
          cases hint : Py.int size with
          | error e => simp [hkind, hsize, (Py.int_error hint).2]
          | ok n =>
            obtain ⟨_, hnumber, hhuge⟩ := Py.int_ok hint
            have hmonthly := monthlyFor_raises price.usdPerGbMonth n
            cases hproduct : monthlyFor .double price.usdPerGbMonth n with
            | error e =>
              rw [hproduct] at hmonthly
              simp [hproduct, hkind, hsize, hhuge, hmonthly.1 (raises_error e)]
            | ok monthly =>
              rw [hproduct] at hmonthly
              have hno : Py.isHugeInt n = false :=
                Bool.eq_false_iff.2 fun h => not_raises_ok monthly (hmonthly.2 h)
              simp [hproduct, hnumber, hhuge, hno]

theorem addVolumes_raises (region : String) (attached : List (List (String × Json)))
    (b : Breakdown) : Raises (attached.foldlM (addVolume .double region) b) ↔
      ∃ vol ∈ attached, volumeTrips vol = true := by
  induction attached generalizing b with
  | nil => simp [pure, Except.pure]
  | cons vol attached ih =>
    rw [List.foldlM_cons]
    have hvol := addVolume_raises region b vol
    cases hadd : addVolume .double region b vol with
    | error e =>
      rw [hadd] at hvol
      have hraised : Raises ((.error e : Except PyError Breakdown) >>= fun b =>
          attached.foldlM (addVolume .double region) b) := ⟨e, rfl⟩
      simp [hraised, hvol.1 (raises_error e)]
    | ok b' =>
      rw [hadd] at hvol
      have hno : ¬ volumeTrips vol = true := fun h => not_raises_ok b' (hvol.2 h)
      have hrest : ((.ok b' : Except PyError Breakdown) >>= fun b =>
          attached.foldlM (addVolume .double region) b) =
          attached.foldlM (addVolume .double region) b' := rfl
      rw [hrest, ih b']
      simp [hno]

theorem stopped_raises {facts : List Fact} {id : Uuid} (today : Date) :
    Raises (evaluateStopped .double id facts today) ↔ StoppedTrips (indexFacts facts) := by
  simp only [evaluateStopped, StoppedTrips]
  generalize indexFacts facts = idx
  cases hstate : idx.known "aws.ec2.instance.state" with
  | none => simp
  | some state =>
    by_cases hstopped : state.value = .str stoppedState
    · simp only [hstopped, ne_eq, not_true_eq_false, if_false]
      cases hregion : idx.known "aws.ec2.instance.region" with
      | none => simp
      | some region =>
        cases hvolumes : idx.get? "aws.ec2.instance.attached_volumes" with
        | none => simp
        | some volumes =>
          cases hdicts : dicts volumes.value with
          | none => simp [hdicts]
          | some attached =>
            cases attached with
            | nil => simp [hdicts]
            | cons vol attached =>
              have hfold := addVolumes_raises (Py.str region.value) (vol :: attached)
                ⟨.finite 0, [], true, false, []⟩
              have hright : (∃ volumes_1 ∈ some volumes, ∃ attached_1 ∈ dicts volumes_1.value,
                  ∃ v ∈ attached_1, volumeTrips v = true) ↔
                  ∃ v ∈ vol :: attached, volumeTrips v = true := by
                simp only [Option.mem_def, Option.some.injEq, exists_eq_left', hdicts]
              have hleft : (∃ s ∈ some state, s.value = .str stoppedState) := ⟨state, rfl, hstopped⟩
              rw [hright, ← hfold, and_iff_right hleft, and_iff_right Option.isSome_some]
              simp only [hdicts]
              generalize (vol :: attached).foldlM (addVolume .double (Py.str region.value))
                ⟨.finite 0, [], true, false, []⟩ = sum
              cases sum <;> simp
    · simp [hstopped]

end Storage

/-! ## The end-of-life rules -/

namespace Eol

/-- The date is inside the alert window of the version, or past it. -/
def isDue (config : EolRuleConfig) (info : EolInfo) (today : Date) : Bool :=
  info.endOfExtendedSupport < today ∨ info.eolDate.daysSince today ≤ config.alertWindowDays

/-- The part of a version in front of its first dot. -/
def firstPart (version : String) : List Char := (Py.split '.' version.toList).headD []

def majorOf (m : EngineEolMatcher) (version : String) : Option Json :=
  (m.parseMajor version).toOption.join

/-- The engine is one of the rule, and its version is a PostgreSQL one with digits `int` does not
read, or its vCPU count is infinite, or too large for a float when the version is due. -/
def Trips (config : EolRuleConfig) (idx : FactIndex) (today : Date) : Prop :=
  ∃ engine ∈ idx.known "aws.rds.engine", ∃ version ∈ idx.known "aws.rds.engine_version",
    ∃ vcpu ∈ idx.known "aws.rds.vcpu", (idx.known "aws.rds.region").isSome = true ∧
      ∃ m ∈ selectMatcher config (Py.str engine.value),
        (m.engineValue = "postgres" ∧ Py.oddDigits (firstPart (Py.str version.value)) = true) ∨
          ∃ major ∈ majorOf m (Py.str version.value), Py.isInfinite vcpu.value = true ∨
            (Py.isHuge vcpu.value = true ∧
              ∃ info ∈ m.lookupEolInfo major, isDue config info today = true)

/-- What the four matchers have in common: only the PostgreSQL parser raises, and every version in
a catalog has an upgrade target. -/
structure Regular (m : EngineEolMatcher) : Prop where
  parse : ∀ version, Raises (m.parseMajor version) ↔
    m.engineValue = "postgres" ∧ Py.oddDigits (firstPart version) = true
  upgrade : ∀ {major info}, m.lookupEolInfo major = some info →
    ∃ target, m.upgradeTarget major = .ok target

theorem makeInsight_raises (config : EolRuleConfig) (m : EngineEolMatcher) (x : EolSubject)
    (days : Int) (severity : Severity) (title recommendation : String) :
    Raises (makeInsight .double config m x days severity title recommendation) ↔
      Py.isHugeInt x.vcpuCount = true := by
  have hhours : ∃ hours, Arith.double.ofInt hoursPerMonth = .ok hours :=
    ⟨.finite 730, by decide +kernel⟩
  obtain ⟨hours, hhours⟩ := hhours
  simp only [makeInsight, monthlyUsd, Py.isHugeInt, hhours]
  cases Arith.double.ofInt x.vcpuCount <;> simp [Except.toOption]

theorem evaluateDates_raises {config : EolRuleConfig} {m : EngineEolMatcher} (hm : Regular m)
    {x : EolSubject} (hinfo : m.lookupEolInfo x.major = some x.info) :
    Raises (evaluateDates .double config m x) ↔
      Py.isHugeInt x.vcpuCount = true ∧ isDue config x.info x.current = true := by
  obtain ⟨target, htarget⟩ := hm.upgrade hinfo
  simp only [evaluateDates, htarget, isDue]
  by_cases hforce : x.info.endOfExtendedSupport < x.current
  · rw [if_pos hforce, makeInsight_raises]; simp [hforce]
  · rw [if_neg hforce]
    by_cases hfar : x.info.eolDate.daysSince x.current > config.alertWindowDays
    · rw [if_pos hfar]; simp [hforce, hfar]
    · rw [if_neg hfar]
      have hnear : x.info.eolDate.daysSince x.current ≤ config.alertWindowDays := by omega
      split <;> rw [makeInsight_raises] <;> simp [hnear]

theorem evaluateKnown_raises {config : EolRuleConfig} {m : EngineEolMatcher} (hm : Regular m)
    {id : Uuid} {engine version vcpu region : Fact} {today : Date} {catalogVersion : String} :
    Raises (evaluateKnown .double config m id engine version vcpu region today catalogVersion) ↔
      (m.engineValue = "postgres" ∧ Py.oddDigits (firstPart (Py.str version.value)) = true) ∨
        ∃ major ∈ majorOf m (Py.str version.value), Py.isInfinite vcpu.value = true ∨
          (Py.isHuge vcpu.value = true ∧
            ∃ info ∈ m.lookupEolInfo major, isDue config info today = true) := by
  rw [← hm.parse]
  simp only [evaluateKnown, majorOf]
  cases hparse : m.parseMajor (Py.str version.value) with
  | error e => simp
  | ok major =>
    cases major with
    | none => simp [Except.toOption]
    | some major =>
      simp only [Except.toOption, Option.join_some, Option.mem_def,
        Option.some.injEq, exists_eq_left', not_raises_ok, false_or]
      cases hint : Py.int vcpu.value with
      | error e =>
        obtain ⟨hcls, _⟩ := Py.int_error hint
        have hhuge : Py.isHuge vcpu.value = false := by rw [Py.isHuge, hint]; rfl
        by_cases hinf : Py.isInfinite vcpu.value = true
        · have hno : ¬ (e.cls = "TypeError" ∨ e.cls = "ValueError") := by simp [hcls, hinf]
          simp [hno, hinf]
        · have hyes := hcls.2 (Bool.eq_false_iff.2 hinf)
          simp [hyes, hinf, hhuge]
      | ok n =>
        obtain ⟨hinf, _, hhuge⟩ := Py.int_ok hint
        simp only [hinf, Bool.false_eq_true, false_or, hhuge]
        cases hinfo : m.lookupEolInfo major with
        | none => simp
        | some info =>
          simp only [evaluateDates_raises hm (x := {
            resourceId := id, accountId := engine.accountId, major := major
            versionValue := Py.str version.value, vcpuCount := n
            region := if region.value = .null then none else some (Py.str region.value)
            info := info, current := today, catalogVersion := catalogVersion }) hinfo]
          simp

theorem evaluateEol_raises {config : EolRuleConfig} (hconfig : ∀ m ∈ config.engines, Regular m)
    {catalogVersion : String} {id : Uuid} {facts : List Fact} {today : Date} :
    Raises (evaluateEol .double config catalogVersion id facts today) ↔
      Trips config (indexFacts facts) today := by
  simp only [evaluateEol, Trips]
  generalize indexFacts facts = idx
  cases hengine : idx.known "aws.rds.engine" with
  | none => simp
  | some engine =>
    cases hselect : selectMatcher config (Py.str engine.value) with
    | none => simp [hselect]
    | some m =>
      have hm := hconfig m (List.mem_of_find?_eq_some hselect)
      cases hversion : idx.known "aws.rds.engine_version" with
      | none => simp [hselect]
      | some version =>
        cases hvcpu : idx.known "aws.rds.vcpu" with
        | none => simp [hselect]
        | some vcpu =>
          cases hregion : idx.known "aws.rds.region" with
          | none => simp [hselect]
          | some region => simp [hselect, evaluateKnown_raises hm]

theorem lookupInt_some {table : List (Int × EolInfo)} {major : Json} {info : EolInfo}
    (h : lookupInt table major = some info) : ∃ n, major = .int n ∧ (n, info) ∈ table := by
  cases major with
  | int n => exact ⟨n, rfl, Catalog.find_some h⟩
  | _ => cases h

theorem parsePostgresMajor_raises (version : String) : Raises (parsePostgresMajor version) ↔
    Py.oddDigits (firstPart version) = true := by
  rw [parsePostgresMajor, ← firstPart]
  by_cases hdigits : Py.isdigit (firstPart version) = true
  · rw [if_pos hdigits, ← Py.parseInt_digits hdigits]
    cases Py.parseInt (firstPart version) <;> simp
  · have hno : Py.isdigit (firstPart version) = false := Bool.eq_false_iff.2 hdigits
    simp [hno, Py.oddDigits]

theorem postgres_regular : Regular postgresMatcher where
  parse version := by
    have heq : postgresMatcher.engineValue = "postgres" := rfl
    rw [and_iff_right heq]
    exact parsePostgresMajor_raises version
  upgrade h := by
    obtain ⟨n, rfl, _⟩ := lookupInt_some h
    exact ⟨_, rfl⟩

theorem parseMysqlMajor_ok (version : String) : ¬ Raises (parseMysqlMajor version) := by
  rw [parseMysqlMajor]
  split
  · split <;> exact not_raises_ok _
  · exact not_raises_ok _

theorem mysql_regular : Regular mysqlMatcher where
  parse version := by
    have hengine : mysqlMatcher.engineValue ≠ "postgres" := by decide
    simp only [hengine, false_and, iff_false]
    exact parseMysqlMajor_ok version
  upgrade {major info} h := by
    have htable : ∀ p ∈ mysqlEol, (find mysqlNextMajor p.1).isSome = true := by decide +kernel
    cases major with
    | str major =>
      have hsome := htable _ (Catalog.find_some h)
      obtain ⟨target, htarget⟩ := Option.isSome_iff_exists.1 hsome
      refine ⟨target, ?_⟩
      have hupgrade : mysqlUpgradeTarget (.str major) = .ok target := by
        rw [mysqlUpgradeTarget, htarget]
      exact hupgrade
    | _ => cases h

theorem parseAuroraMajor_ok (engine version : String) : ¬ Raises (parseAuroraMajor engine version) :=
  not_raises_ok _

theorem auroraMysql_regular : Regular auroraMysqlMatcher where
  parse version := by
    have hengine : auroraMysqlMatcher.engineValue ≠ "postgres" := by decide
    simp only [hengine, false_and, iff_false]
    exact parseAuroraMajor_ok _ version
  upgrade h := by
    have htable : ∀ p ∈ auroraMysqlEol, (find auroraMysqlNextMajor p.1).isSome = true := by
      decide +kernel
    obtain ⟨n, rfl, hmem⟩ := lookupInt_some h
    obtain ⟨target, htarget⟩ := Option.isSome_iff_exists.1 (htable _ hmem)
    refine ⟨target, ?_⟩
    have hupgrade : auroraMysqlUpgradeTarget (.int n) = .ok target := by
      rw [auroraMysqlUpgradeTarget, htarget]
    exact hupgrade

theorem auroraPostgres_regular : Regular auroraPostgresMatcher where
  parse version := by
    have hengine : auroraPostgresMatcher.engineValue ≠ "postgres" := by decide
    simp only [hengine, false_and, iff_false]
    exact parseAuroraMajor_ok _ version
  upgrade h := by
    obtain ⟨n, rfl, _⟩ := lookupInt_some h
    exact ⟨_, rfl⟩

end Eol

/-- The facts on which a rule raises. -/
def Trips (ruleName : String) (idx : FactIndex) (today : Date) : Prop :=
  (ruleName = "rds_eol" ∧ Eol.Trips Eol.rdsEol idx today) ∨
    (ruleName = "mysql_eol" ∧ Eol.Trips Eol.mysqlEolConfig idx today) ∨
    (ruleName = "aurora_eol" ∧ Eol.Trips Eol.auroraEol idx today) ∨
    (ruleName = "ebs_gp2_to_gp3" ∧ Storage.Gp2Trips idx) ∨
    (ruleName = "ebs_unattached" ∧ Storage.UnattachedTrips idx) ∨
    (ruleName = "snapshot_orphan" ∧ Storage.OrphanTrips idx) ∨
    (ruleName = "ec2_stopped_with_storage" ∧ Storage.StoppedTrips idx)

instance (config : Eol.EolRuleConfig) (idx : FactIndex) (today : Date) :
    Decidable (Eol.Trips config idx today) := by
  unfold Eol.Trips
  infer_instance

instance (idx : FactIndex) : Decidable (Storage.Gp2Trips idx) := inferInstanceAs (Decidable (_ ∧ _))

instance (idx : FactIndex) : Decidable (Storage.UnattachedTrips idx) :=
  inferInstanceAs (Decidable (_ ∧ _))

instance (idx : FactIndex) : Decidable (Storage.OrphanTrips idx) :=
  inferInstanceAs (Decidable (_ ∧ _))

instance (idx : FactIndex) : Decidable (Storage.StoppedTrips idx) := by
  unfold Storage.StoppedTrips
  infer_instance

instance (ruleName : String) (idx : FactIndex) (today : Date) :
    Decidable (Trips ruleName idx today) := by
  unfold Trips
  infer_instance

theorem raises_iff {rule : ResourceRule} (hrule : rule ∈ resourceRules .double) {id : Uuid}
    {facts : List Fact} {today : Date} :
    Raises (rule.evaluate id facts today) ↔ Trips rule.name (indexFacts facts) today := by
  simp only [resourceRules, List.mem_cons, List.not_mem_nil, or_false] at hrule
  rcases hrule with rfl | rfl | rfl | rfl | rfl | rfl | rfl
  · refine (Eol.evaluateEol_raises ?_).trans (by simp [Trips, Eol.rule, Eol.rdsEol])
    simp [Eol.rdsEol, Eol.postgres_regular]
  · refine (Eol.evaluateEol_raises ?_).trans (by simp [Trips, Eol.rule, Eol.mysqlEolConfig])
    simp [Eol.mysqlEolConfig, Eol.mysql_regular]
  · refine (Eol.evaluateEol_raises ?_).trans (by simp [Trips, Eol.rule, Eol.auroraEol])
    simp [Eol.auroraEol, Eol.auroraMysql_regular, Eol.auroraPostgres_regular]
  · exact Storage.gp2_raises.trans (by simp [Trips, Storage.rule, Storage.ebsGp2ToGp3])
  · exact Storage.unattached_raises.trans (by simp [Trips, Storage.rule, Storage.ebsUnattached])
  · exact Storage.orphan_raises.trans (by simp [Trips, Storage.rule, Storage.snapshotOrphan])
  · exact (Storage.stopped_raises today).trans
      (by simp [Trips, Storage.stopped, Storage.stoppedRule])

end Constat
