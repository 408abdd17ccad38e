import Constat.Focus.BuildInsights
import Constat.Py.Text

/-!
# Focus.Titles

The title of a chargeback insight, as the parts it is put together from. It is a sentence, with no
quoting: a title determines its parts when no part contains the words that follow it.
-/

namespace Constat

namespace Focus

/-- What a title says of an aggregate. -/
structure Printed where
  service : String
  account : String
  label : String
  tag : String
  direction : String
  currency : String
  amount : String
deriving DecidableEq

namespace Printed

def title (p : Printed) : String :=
  p.service ++ " on " ++ p.account ++ " (" ++ p.label ++ ")" ++ p.tag ++ ": amortized " ++
    p.direction ++ " by " ++ p.currency ++ " " ++ p.amount

/-- Every part ends where the words that follow it first occur. -/
structure Clean (p : Printed) : Prop where
  service : Py.Before " on " p.service
  account : Py.Before " (" p.account
  label : Py.Before ")" p.label
  tag : Py.Before ": amortized " p.tag
  currency : Py.Before " " p.currency

instance (p : Printed) : Decidable p.Clean :=
  decidable_of_iff (Py.Before " on " p.service ∧ Py.Before " (" p.account ∧ Py.Before ")" p.label ∧
      Py.Before ": amortized " p.tag ∧ Py.Before " " p.currency)
    ⟨fun ⟨h₁, h₂, h₃, h₄, h₅⟩ => ⟨h₁, h₂, h₃, h₄, h₅⟩,
      fun ⟨h₁, h₂, h₃, h₄, h₅⟩ => ⟨h₁, h₂, h₃, h₄, h₅⟩⟩

/-- Two aggregates are printed alike: in the same parts, or in parts of which one contains the
words that follow it and so makes up for the difference. -/
def Alike (p q : Printed) : Prop := p = q ∨ ((¬ p.Clean ∨ ¬ q.Clean) ∧ p.title = q.title)

instance (p q : Printed) : Decidable (Alike p q) := inferInstanceAs (Decidable (_ ∨ _))

end Printed

def printed (periodLabel : String) (agg : AggregatedCost) : Printed where
  service := agg.displayService
  account := if agg.accountName = "" then agg.accountId else agg.accountName
  label := labelOf periodLabel agg
  tag := tagSuffix agg
  direction := direction agg.drift
  currency := agg.billingCurrency
  amount := PyFloat.fixed2 (.finite |agg.drift|)

theorem title_printed (periodLabel : String) (agg : AggregatedCost) :
    (printed periodLabel agg).title = insightTitle periodLabel agg := rfl

theorem before_direction (drift : Rat) : Py.Before " by " (direction drift) := by
  unfold direction
  split
  · decide
  · split <;> decide

/-- A clean title determines its parts. -/
theorem printed_of_title {label label' : String} {agg agg' : AggregatedCost}
    (hp : (printed label agg).Clean) (hq : (printed label' agg').Clean)
    (h : (printed label agg).title = (printed label' agg').title) :
    printed label agg = printed label' agg' := by
  have hdir : Py.Before " by " (printed label agg).direction := before_direction agg.drift
  have hdir' : Py.Before " by " (printed label' agg').direction := before_direction agg'.drift
  generalize printed label agg = p at *
  generalize printed label' agg' = q at *
  simp only [Printed.title, String.append_assoc] at h
  obtain ⟨hservice, h⟩ := Py.before_unique hp.service hq.service h
  obtain ⟨haccount, h⟩ := Py.before_unique hp.account hq.account h
  obtain ⟨hlabel, h⟩ := Py.before_unique hp.label hq.label h
  obtain ⟨htag, h⟩ := Py.before_unique hp.tag hq.tag h
  obtain ⟨hdirection, h⟩ := Py.before_unique hdir hdir' h
  obtain ⟨hcurrency, hamount⟩ := Py.before_unique hp.currency hq.currency h
  cases p
  cases q
  simp only at hservice haccount hlabel htag hdirection hcurrency hamount
  rw [hservice, haccount, hlabel, htag, hdirection, hcurrency, hamount]

theorem alike_iff {label label' : String} {agg agg' : AggregatedCost} :
    Printed.Alike (printed label agg) (printed label' agg') ↔
      insightTitle label agg = insightTitle label' agg' := by
  rw [← title_printed, ← title_printed]
  constructor
  · rintro (h | ⟨_, h⟩)
    · rw [h]
    · exact h
  · intro h
    by_cases hclean : (printed label agg).Clean ∧ (printed label' agg').Clean
    · exact .inl (printed_of_title hclean.1 hclean.2 h)
    · exact .inr ⟨by rwa [← not_and_or], h⟩

end Focus

end Constat
