import Mathlib.Data.List.Forall2

/-!
# Lib.Simulation

Machines that answer each event, `step : σ → ε → σ × ω`, and simulations between two of them.

* `final`     — the state a run ends in.
* `answers`   — what a run answers, event by event.
* `Simulates` — a relation of states both machines keep, with answers that agree wherever it holds.

One rule: what a simulation says of a step holds of whole runs (`Simulates.run`).
-/

namespace Simulation

section

variable {σ τ ε ω υ : Type}

def final (step : σ → ε → σ × ω) (s : σ) (es : List ε) : σ := es.foldl (fun s e => (step s e).1) s

def answers (step : σ → ε → σ × ω) : σ → List ε → List ω
  | _, [] => []
  | s, e :: es => (step s e).2 :: answers step (step s e).1 es

@[simp] theorem final_nil (step : σ → ε → σ × ω) (s : σ) : final step s [] = s := rfl

@[simp] theorem final_cons (step : σ → ε → σ × ω) (s : σ) (e : ε) (es : List ε) :
    final step s (e :: es) = final step (step s e).1 es := rfl

/-- `R` relates the states, `A` the answers. -/
structure Simulates (step : σ → ε → σ × ω) (step' : τ → ε → τ × υ) (R : σ → τ → Prop)
    (A : ω → υ → Prop) : Prop where
  state : ∀ s t e, R s t → R (step s e).1 (step' t e).1
  answer : ∀ s t e, R s t → A (step s e).2 (step' t e).2

theorem Simulates.run {step : σ → ε → σ × ω} {step' : τ → ε → τ × υ} {R : σ → τ → Prop}
    {A : ω → υ → Prop} (h : Simulates step step' R A) (es : List ε) :
    ∀ {s : σ} {t : τ}, R s t → R (final step s es) (final step' t es) ∧
      List.Forall₂ A (answers step s es) (answers step' t es) := by
  induction es with
  | nil => exact fun hR => ⟨hR, .nil⟩
  | cons e es ih =>
    intro s t hR
    obtain ⟨hend, hanswers⟩ := ih (h.state s t e hR)
    exact ⟨hend, .cons (h.answer s t e hR) hanswers⟩

end

end Simulation
