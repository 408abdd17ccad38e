import Mathlib.Data.List.Basic
import Mathlib.Logic.Basic

/-!
# Lib.Trace

Runs of a deterministic machine `step : σ → ε → σ` over a list of events.

* `exec`   — the state a run ends in.
* `Along`  — a property of (state, event) pairs that holds at every step of the run.
* `Always` — a property of states that holds in every state the run reaches, the first and the
  last included.

The rules: an invariant that each good step keeps holds at the end of a good run and in every
state on the way (`Along.exec_inv`, `Along.always`), and two step properties that agree wherever
the invariant holds are interchangeable along a run (`Along.congr`). The last one lifts an
equivalence about one step to an equivalence about whole runs; so does `Always.iff_along`, for a
property of states.
-/

namespace Trace

section

variable {σ ε : Type} {step : σ → ε → σ}

def exec (step : σ → ε → σ) (s : σ) (es : List ε) : σ := es.foldl step s

@[simp] theorem exec_nil (s : σ) : exec step s [] = s := rfl

@[simp] theorem exec_cons (s : σ) (e : ε) (es : List ε) :
    exec step s (e :: es) = exec step (step s e) es := rfl

theorem exec_append (s : σ) (es es' : List ε) :
    exec step s (es ++ es') = exec step (exec step s es) es' := List.foldl_append

/-- `P` holds at every step of the run of `es` from `s`. -/
def Along (step : σ → ε → σ) (P : σ → ε → Prop) : σ → List ε → Prop
  | _, [] => True
  | s, e :: es => P s e ∧ Along step P (step s e) es

/-- `Q` holds in every state the run of `es` from `s` reaches. -/
def Always (step : σ → ε → σ) (Q : σ → Prop) : σ → List ε → Prop
  | s, [] => Q s
  | s, e :: es => Q s ∧ Always step Q (step s e) es

instance Along.decidable {P : σ → ε → Prop} [∀ s e, Decidable (P s e)] :
    ∀ (s : σ) (es : List ε), Decidable (Along step P s es)
  | _, [] => inferInstanceAs (Decidable True)
  | s, e :: es =>
    have := Along.decidable (P := P) (step s e) es
    inferInstanceAs (Decidable (P s e ∧ Along step P (step s e) es))

instance Always.decidable {Q : σ → Prop} [∀ s, Decidable (Q s)] :
    ∀ (s : σ) (es : List ε), Decidable (Always step Q s es)
  | s, [] => inferInstanceAs (Decidable (Q s))
  | s, e :: es =>
    have := Always.decidable (Q := Q) (step s e) es
    inferInstanceAs (Decidable (Q s ∧ Always step Q (step s e) es))

variable {P P' : σ → ε → Prop} {Q I : σ → Prop}

namespace Along

theorem mono (h : ∀ s e, P s e → P' s e) :
    ∀ {es : List ε} {s : σ}, Along step P s es → Along step P' s es := by
  intro es
  induction es with
  | nil => intro s _; exact trivial
  | cons e es ih => intro s ha; exact ⟨h s e ha.1, ih ha.2⟩

theorem append {es es' : List ε} {s : σ} :
    Along step P s (es ++ es') ↔ Along step P s es ∧ Along step P (exec step s es) es' := by
  induction es generalizing s with
  | nil => exact ⟨fun h => ⟨trivial, h⟩, fun h => h.2⟩
  | cons e es ih =>
    simp only [List.cons_append, Along, exec_cons, ih, and_assoc]

/-- The step at any position of a good run is good. -/
theorem at_step {pre suf : List ε} {e : ε} {s : σ} (h : Along step P s (pre ++ e :: suf)) :
    P (exec step s pre) e := (append.1 h).2.1

theorem and_iff {es : List ε} {s : σ} :
    Along step (fun s e => P s e ∧ P' s e) s es ↔ Along step P s es ∧ Along step P' s es := by
  induction es generalizing s with
  | nil => exact ⟨fun _ => ⟨trivial, trivial⟩, fun _ => trivial⟩
  | cons e es ih =>
    simp only [Along, ih]
    exact ⟨fun ⟨⟨a, b⟩, c, d⟩ => ⟨⟨a, c⟩, b, d⟩, fun ⟨⟨a, c⟩, b, d⟩ => ⟨⟨a, b⟩, c, d⟩⟩

/-- An invariant that every good step keeps holds at the end of a good run. -/
theorem exec_inv (hstep : ∀ s e, I s → P s e → I (step s e)) :
    ∀ {es : List ε} {s : σ}, I s → Along step P s es → I (exec step s es) := by
  intro es
  induction es with
  | nil => intro s hs _; exact hs
  | cons e es ih => intro s hs ha; exact ih (hstep s e hs ha.1) ha.2

/-- An invariant that every good step keeps holds in every state of a good run. -/
theorem always (hstep : ∀ s e, I s → P s e → I (step s e)) :
    ∀ {es : List ε} {s : σ}, I s → Along step P s es → Always step I s es := by
  intro es
  induction es with
  | nil => intro s hs _; exact hs
  | cons e es ih => intro s hs ha; exact ⟨hs, ih (hstep s e hs ha.1) ha.2⟩

/-- Two step properties that agree wherever a step invariant holds agree along a run. -/
theorem congr (hstep : ∀ s e, I s → I (step s e))
    (h : ∀ s e, I s → (P s e ↔ P' s e)) :
    ∀ {es : List ε} {s : σ}, I s → (Along step P s es ↔ Along step P' s es) := by
  intro es
  induction es with
  | nil => intro s _; exact Iff.rfl
  | cons e es ih =>
    intro s hs
    exact and_congr (h s e hs) (ih (hstep s e hs))

/-- A step property that implies another wherever a step invariant holds implies it along a
run. -/
theorem imp_of_inv (hstep : ∀ s e, I s → I (step s e))
    (h : ∀ s e, I s → P s e → P' s e) :
    ∀ {es : List ε} {s : σ}, I s → Along step P s es → Along step P' s es := by
  intro es
  induction es with
  | nil => intro s _ _; exact trivial
  | cons e es ih => intro s hs ha; exact ⟨h s e hs ha.1, ih (hstep s e hs) ha.2⟩

/-- What each good step gives besides keeping an invariant holds along a good run. -/
theorem of_inv (hstep : ∀ s e, I s → P s e → I (step s e) ∧ P' s e) :
    ∀ {es : List ε} {s : σ}, I s → Along step P s es → Along step P' s es := by
  intro es
  induction es with
  | nil => intro s _ _; exact trivial
  | cons e es ih =>
    intro s hs ha
    obtain ⟨hi, hp⟩ := hstep s e hs ha.1
    exact ⟨hp, ih hi ha.2⟩

/-- To hold along a run is to hold at each of its positions. -/
theorem of_prefix {es : List ε} {s : σ}
    (h : ∀ pre e suf, es = pre ++ e :: suf → P (exec step s pre) e) : Along step P s es := by
  induction es generalizing s with
  | nil => exact trivial
  | cons e es ih =>
    refine ⟨h [] e es rfl, ih fun pre e' suf he => ?_⟩
    exact h (e :: pre) e' suf (by rw [he, List.cons_append])

end Along

namespace Always

theorem mono (h : ∀ s, Q s → I s) :
    ∀ {es : List ε} {s : σ}, Always step Q s es → Always step I s es := by
  intro es
  induction es with
  | nil => intro s ha; exact h s ha
  | cons e es ih => intro s ha; exact ⟨h s ha.1, ih ha.2⟩

theorem head {es : List ε} {s : σ} (h : Always step Q s es) : Q s := by
  cases es with
  | nil => exact h
  | cons e es => exact h.1

/-- Every state of a run is the end of one of its prefixes. -/
theorem iff_prefix {es : List ε} {s : σ} :
    Always step Q s es ↔ ∀ pre suf, es = pre ++ suf → Q (exec step s pre) := by
  constructor
  · intro h pre
    induction pre generalizing s es with
    | nil => intro suf _; exact head h
    | cons e pre ih =>
      intro suf he
      subst he
      exact ih h.2 suf rfl
  · intro h
    induction es generalizing s with
    | nil => exact h [] [] rfl
    | cons e es ih =>
      exact ⟨h [] _ rfl, ih fun pre suf he => h (e :: pre) suf (by rw [he, List.cons_append])⟩

end Always

/-- What each step brings about exactly when it is good holds in every state exactly when every step
of the run is good. -/
theorem Always.iff_along (hstep : ∀ s e, I s → I (step s e))
    (h : ∀ s e, I s → Q s → (Q (step s e) ↔ P s e)) :
    ∀ {es : List ε} {s : σ}, I s → Q s → (Always step Q s es ↔ Along step P s es) := by
  intro es
  induction es with
  | nil => intro s _ hq; exact ⟨fun _ => trivial, fun _ => hq⟩
  | cons e es ih =>
    intro s hs hq
    constructor
    · rintro ⟨_, hrest⟩
      have hnext : Q (step s e) := Always.head hrest
      exact ⟨(h s e hs hq).1 hnext, (ih (hstep s e hs) hnext).1 hrest⟩
    · rintro ⟨hgood, hrest⟩
      have hnext : Q (step s e) := (h s e hs hq).2 hgood
      exact ⟨hq, (ih (hstep s e hs) hnext).2 hrest⟩

/-- An invariant of every step holds in every state of every run. -/
theorem Always.of_inv (hstep : ∀ s e, I s → I (step s e)) {s : σ} (hs : I s) (es : List ε) :
    Always step I s es := by
  induction es generalizing s with
  | nil => exact hs
  | cons e es ih => exact ⟨hs, ih (hstep s e hs)⟩

/-- An invariant of every step holds at the end of every run. -/
theorem exec_inv (hstep : ∀ s e, I s → I (step s e)) {s : σ} (hs : I s) (es : List ε) :
    I (exec step s es) := by
  induction es generalizing s with
  | nil => exact hs
  | cons e es ih => exact ih (hstep s e hs)

/-- A relation that every good step respects relates the start of a good run to its end. -/
theorem exec_rel {R : σ → σ → Prop} (hrefl : ∀ s, R s s)
    (htrans : ∀ a b c, R a b → R b c → R a c)
    (hstep : ∀ s e, I s → P s e → I (step s e) ∧ R s (step s e)) :
    ∀ {es : List ε} {s : σ}, I s → Along step P s es → R s (exec step s es) := by
  intro es
  induction es with
  | nil => intro s _ _; exact hrefl s
  | cons e es ih =>
    intro s hs ha
    obtain ⟨hi, hr⟩ := hstep s e hs ha.1
    exact htrans _ _ _ hr (ih hi ha.2)

end

end Trace
