import Constat.Orm
import Constat.Py.Text

/-!
# Rules.Models

What a rule reads and returns (`constat_core/models.py`): the facts of one resource, and the
insights and inconclusive reasons of its evaluation. An account id is kept as the UUID its text
stands for.
-/

namespace Constat

structure Fact where
  resourceId : Option Uuid
  accountId : Option Uuid
  namespaceName : String
  key : String
  value : Json
  valueState : ValueState
  source : String
  observedAt : Micros
deriving DecidableEq

structure Insight where
  ruleName : String
  resourceId : Option Uuid
  accountId : Option Uuid
  severity : Severity
  title : String
  payload : List (String × Json)
deriving DecidableEq

/-- The outcome of evaluating one resource. -/
structure RuleResult where
  insights : List Insight
  inconclusiveReasons : List String
deriving DecidableEq

namespace RuleResult

/-- Nothing to say: the resource has no gap under this rule. -/
def noMatch : RuleResult := ⟨[], []⟩

def inconclusive (reasons : List String) : RuleResult := ⟨[], reasons⟩

def gap (i : Insight) : RuleResult := ⟨[i], []⟩

def isConclusive (r : RuleResult) : Bool := r.inconclusiveReasons.isEmpty

@[simp] theorem noMatch_ne_gap (i : Insight) : noMatch ≠ gap i := by simp [noMatch, gap]

@[simp] theorem inconclusive_ne_gap (reasons : List String) (i : Insight) :
    inconclusive reasons ≠ gap i := by simp [inconclusive, gap]

end RuleResult

/-! ## The fact index of a resource -/

abbrev FactIndex := Dict String Fact

def Fact.dotted (f : Fact) : String := f.namespaceName ++ "." ++ f.key

/-- Facts by dotted key; a later fact with the same key replaces an earlier one. -/
def indexFacts (facts : List Fact) : FactIndex :=
  facts.foldl (fun idx f => idx.set f.dotted f) .empty

theorem mem_of_indexFacts {facts : List Fact} {key : String} {f : Fact}
    (h : (indexFacts facts).get? key = some f) : f ∈ facts ∧ f.dotted = key := by
  rcases Dict.get?_foldl_set_some h with ⟨x, hx, hk, rfl⟩ | h
  · exact ⟨hx, hk⟩
  · cases h

namespace FactIndex

/-- The fact under a key, when its state is KNOWN. -/
def known (idx : FactIndex) (key : String) : Option Fact :=
  (idx.get? key).filter fun f => f.valueState = .known

/-- The keys that have no KNOWN fact, in their order. -/
def missing (idx : FactIndex) (keys : List String) : List String :=
  keys.filter fun k => (idx.known k).isNone

/-- `idx[key].value`. -/
def value (idx : FactIndex) (key : String) : Json := ((idx.get? key).map (·.value)).getD .null

theorem known_of_missing_nil {idx : FactIndex} {keys : List String} {key : String}
    (h : idx.missing keys = []) (hkey : key ∈ keys) :
    ∃ f, idx.get? key = some f ∧ f.valueState = .known := by
  have hsome := (List.filter_eq_nil_iff.1 h) key hkey
  rw [Bool.not_eq_true, Option.isNone_eq_false_iff, known] at hsome
  obtain ⟨f, hf⟩ := Option.isSome_iff_exists.1 hsome
  exact ⟨f, by simpa using Option.filter_eq_some_iff.1 hf⟩

end FactIndex

/-- `payload.update(extras)`. -/
def updateFields (payload extras : List (String × Json)) : List (String × Json) :=
  extras.foldl (fun fields p => Table.putRow Prod.fst p fields) payload

def optStr : Option String → Json
  | none => .null
  | some s => .str s

end Constat
