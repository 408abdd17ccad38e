import Constat.Lib.Session

/-!
# Lib.Related

Two computations that raise the same or return related results, and the sessions that no client can
tell apart: `Same` sessions agree on what is committed and on what is pending, and may differ in
their past. A computation that only reads a session's working state and writes, commits or rolls
back keeps sessions the same (`Twin`).
-/

/-- Both raise the same, or both return and the results are related. -/
def Related {ε α β : Type} (R : α → β → Prop) (x : Except ε α) (y : Except ε β) : Prop :=
  (∃ e, x = .error e ∧ y = .error e) ∨ ∃ a b, x = .ok a ∧ y = .ok b ∧ R a b

namespace Related

variable {ε α β γ : Type} {R : β → γ → Prop}

theorem error (e : ε) : Related R (.error e) (.error e) := .inl ⟨e, rfl, rfl⟩

theorem ok {b : β} {c : γ} (h : R b c) : Related R (.ok b : Except ε β) (.ok c) :=
  .inr ⟨b, c, rfl, rfl, h⟩

/-- A loop whose steps keep results related. -/
theorem foldlM {f : β → α → Except ε β} {g : γ → α → Except ε γ}
    (hstep : ∀ a b c, R b c → Related R (f b a) (g c a)) (l : List α) :
    ∀ {b : β} {c : γ}, R b c → Related R (l.foldlM f b) (l.foldlM g c) := by
  induction l with
  | nil => exact fun h => ok h
  | cons a l ih =>
    intro b c h
    rw [List.foldlM_cons, List.foldlM_cons]
    obtain ⟨e, hb, hc⟩ | ⟨b', c', hb, hc, h'⟩ := hstep a b c h
    · rw [hb, hc]
      exact error e
    · rw [hb, hc]
      exact ih h'

end Related

namespace Session

variable {σ ω : Type} {act : σ → ω → σ}

structure Same (s s' : Session act) : Prop where
  committed : s.committed = s'.committed
  pending : s.pending = s'.pending

namespace Same

variable {s s' : Session act}

theorem refl (s : Session act) : Same s s := ⟨rfl, rfl⟩

theorem working (h : Same s s') : s.working = s'.working := by
  rw [s.working_eq, s'.working_eq, h.committed, h.pending]

theorem write (h : Same s s') (w : ω) : Same (s.write w) (s'.write w) where
  committed := h.committed
  pending := by rw [write_pending, write_pending, h.pending]

theorem writes (h : Same s s') (ws : List ω) : Same (s.writes ws) (s'.writes ws) := by
  induction ws generalizing s s' with
  | nil => exact h
  | cons w ws ih => exact ih (h.write w)

theorem commit (h : Same s s') : Same s.commit s'.commit where
  committed := h.working
  pending := rfl

theorem rollback (h : Same s s') : Same s.rollback s'.rollback where
  committed := h.committed
  pending := rfl

/-- With nothing pending, a session is as good as one opened now. -/
theorem reopened (h : s.pending = []) : Same s (begin s.committed) where
  committed := rfl
  pending := h

end Same

/-- Two values that differ in the session they carry, and the sessions are the same. -/
def Twin {α γ : Type} (put : γ → Session act → α) (a a' : α) : Prop :=
  ∃ c s s', Same s s' ∧ a = put c s ∧ a' = put c s'

end Session
