import Mathlib.Data.List.Basic

/-!
# Lib.Session

A database session as its client sees it: a journal of writes over a store. A write goes to the
session's working state at once and to the pending journal; a commit makes the pending journal
durable, a rollback drops it, and closing the session keeps what was committed. The dropped writes
stay on record, so that "no write was lost" can be said of a session.

Both states are fields with a proof that they are the replay of their journals, so "this write is
still there at the end" is a statement about the journals and "the store holds what was written"
is a field (`committed_eq`, `working_eq`).
-/

/-- A session on a store of type `σ` with writes of type `ω`. `durable`, `pending` and `dropped` are
the writes made since the session was opened: the committed ones, the ones still to be committed
and the ones rolled back. -/
structure Session {σ ω : Type} (act : σ → ω → σ) where
  base : σ
  durable : List ω
  committed : σ
  committed_eq : committed = durable.foldl act base
  pending : List ω
  working : σ
  working_eq : working = pending.foldl act committed
  dropped : List ω

namespace Session

variable {σ ω : Type} {act : σ → ω → σ}

def begin (store : σ) : Session act where
  base := store
  durable := []
  committed := store
  committed_eq := rfl
  pending := []
  working := store
  working_eq := rfl
  dropped := []

def write (s : Session act) (w : ω) : Session act where
  base := s.base
  durable := s.durable
  committed := s.committed
  committed_eq := s.committed_eq
  pending := s.pending ++ [w]
  working := act s.working w
  working_eq := by rw [List.foldl_append, ← s.working_eq]; rfl
  dropped := s.dropped

def writes (s : Session act) (ws : List ω) : Session act := ws.foldl write s

def commit (s : Session act) : Session act where
  base := s.base
  durable := s.durable ++ s.pending
  committed := s.working
  committed_eq := by rw [List.foldl_append, ← s.committed_eq, ← s.working_eq]
  pending := []
  working := s.working
  working_eq := rfl
  dropped := s.dropped

def rollback (s : Session act) : Session act where
  base := s.base
  durable := s.durable
  committed := s.committed
  committed_eq := s.committed_eq
  pending := []
  working := s.committed
  working_eq := rfl
  dropped := s.dropped ++ s.pending

/-- What the store holds once the session is closed: the committed state. -/
def close (s : Session act) : σ := s.committed

/-- The journals of a session and the store it was opened on determine it. -/
theorem ext {s s' : Session act} (hb : s.base = s'.base) (hd : s.durable = s'.durable)
    (hp : s.pending = s'.pending) (hx : s.dropped = s'.dropped) : s = s' := by
  have hc : s.committed = s'.committed := by rw [s.committed_eq, s'.committed_eq, hb, hd]
  have hw : s.working = s'.working := by rw [s.working_eq, s'.working_eq, hc, hp]
  cases s; cases s'
  simp only at hb hd hp hx hc hw
  subst hb hd hp hx hc hw
  rfl

/-! ## Write -/

@[simp] theorem write_durable (s : Session act) (w : ω) : (s.write w).durable = s.durable := rfl
@[simp] theorem write_committed (s : Session act) (w : ω) :
    (s.write w).committed = s.committed := rfl
@[simp] theorem write_pending (s : Session act) (w : ω) :
    (s.write w).pending = s.pending ++ [w] := rfl
@[simp] theorem write_dropped (s : Session act) (w : ω) : (s.write w).dropped = s.dropped := rfl
@[simp] theorem write_working (s : Session act) (w : ω) :
    (s.write w).working = act s.working w := rfl

@[simp] theorem writes_nil (s : Session act) : s.writes [] = s := rfl
@[simp] theorem writes_cons (s : Session act) (w : ω) (ws : List ω) :
    s.writes (w :: ws) = (s.write w).writes ws := rfl

theorem writes_append (s : Session act) (ws ws' : List ω) :
    s.writes (ws ++ ws') = (s.writes ws).writes ws' := List.foldl_append

@[simp] theorem writes_base (s : Session act) (ws : List ω) : (s.writes ws).base = s.base := by
  induction ws generalizing s with
  | nil => rfl
  | cons w ws ih => rw [writes_cons, ih]; rfl

@[simp] theorem writes_durable (s : Session act) (ws : List ω) :
    (s.writes ws).durable = s.durable := by
  induction ws generalizing s with
  | nil => rfl
  | cons w ws ih => rw [writes_cons, ih, write_durable]

@[simp] theorem writes_committed (s : Session act) (ws : List ω) :
    (s.writes ws).committed = s.committed := by
  induction ws generalizing s with
  | nil => rfl
  | cons w ws ih => rw [writes_cons, ih, write_committed]

@[simp] theorem writes_dropped (s : Session act) (ws : List ω) :
    (s.writes ws).dropped = s.dropped := by
  induction ws generalizing s with
  | nil => rfl
  | cons w ws ih => rw [writes_cons, ih, write_dropped]

@[simp] theorem writes_pending (s : Session act) (ws : List ω) :
    (s.writes ws).pending = s.pending ++ ws := by
  induction ws generalizing s with
  | nil => simp
  | cons w ws ih => rw [writes_cons, ih, write_pending, List.append_assoc, List.singleton_append]

@[simp] theorem writes_working (s : Session act) (ws : List ω) :
    (s.writes ws).working = ws.foldl act s.working := by
  induction ws generalizing s with
  | nil => rfl
  | cons w ws ih => rw [writes_cons, ih, write_working, List.foldl_cons]

/-! ## Commit, rollback, close -/

@[simp] theorem commit_durable (s : Session act) :
    s.commit.durable = s.durable ++ s.pending := rfl
@[simp] theorem commit_pending (s : Session act) : s.commit.pending = [] := rfl
@[simp] theorem commit_committed (s : Session act) : s.commit.committed = s.working := rfl
@[simp] theorem commit_working (s : Session act) : s.commit.working = s.working := rfl
@[simp] theorem commit_dropped (s : Session act) : s.commit.dropped = s.dropped := rfl

@[simp] theorem rollback_durable (s : Session act) : s.rollback.durable = s.durable := rfl
@[simp] theorem rollback_pending (s : Session act) : s.rollback.pending = [] := rfl
@[simp] theorem rollback_committed (s : Session act) : s.rollback.committed = s.committed := rfl
@[simp] theorem rollback_working (s : Session act) : s.rollback.working = s.committed := rfl
@[simp] theorem rollback_dropped (s : Session act) :
    s.rollback.dropped = s.dropped ++ s.pending := rfl

@[simp] theorem begin_durable (store : σ) : (begin store : Session act).durable = [] := rfl
@[simp] theorem begin_pending (store : σ) : (begin store : Session act).pending = [] := rfl
@[simp] theorem begin_committed (store : σ) :
    (begin store : Session act).committed = store := rfl
@[simp] theorem begin_dropped (store : σ) : (begin store : Session act).dropped = [] := rfl
@[simp] theorem begin_working (store : σ) : (begin store : Session act).working = store := rfl

/-- Closing right after a commit keeps every write. -/
theorem close_commit (s : Session act) : s.commit.close = s.working := rfl

/-- A session that is closed without a commit leaves the store as it was opened. -/
theorem close_writes_begin (store : σ) (ws : List ω) :
    ((begin store : Session act).writes ws).close = store := by
  rw [close, writes_committed, begin_committed]

theorem working_of_pending_nil {s : Session act} (h : s.pending = []) :
    s.working = s.committed := by
  rw [s.working_eq, h, List.foldl_nil]

/-! ## Savepoints -/

/-- Back to the savepoint `saved`: what `s` has written since is dropped, the rest stays. -/
def rollbackTo (saved s : Session act) : Session act :=
  { saved with dropped := s.dropped ++ s.pending.drop saved.pending.length }

/-- With nothing pending at the savepoint, a rollback to it is a rollback of everything. -/
theorem rollbackTo_of_pending_nil (s : Session act) (h : s.pending = []) (ws : List ω) :
    rollbackTo s (s.writes ws) = (s.writes ws).rollback := by
  refine ext ?_ ?_ ?_ ?_
  · exact (writes_base s ws).symm
  · exact (writes_durable s ws).symm
  · exact h
  · simp [rollbackTo, h]

/-! ## Writes of a kind -/

/-- `s'` is `s` after some writes, all of them in `p`. -/
def WritesOnly (p : ω → Bool) (s s' : Session act) : Prop :=
  ∃ ws : List ω, (∀ w ∈ ws, p w = true) ∧ s' = s.writes ws

namespace WritesOnly

variable {p : ω → Bool} {s s' s'' : Session act}

theorem refl (p : ω → Bool) (s : Session act) : WritesOnly p s s :=
  ⟨[], fun _ hw => (by cases hw), rfl⟩

theorem trans (h : WritesOnly p s s') (h' : WritesOnly p s' s'') : WritesOnly p s s'' := by
  obtain ⟨ws, hp, rfl⟩ := h
  obtain ⟨ws', hp', rfl⟩ := h'
  refine ⟨ws ++ ws', fun w hw => ?_, by rw [writes_append]⟩
  rcases List.mem_append.1 hw with hw | hw
  · exact hp w hw
  · exact hp' w hw

theorem write (s : Session act) {w : ω} (hw : p w = true) : WritesOnly p s (s.write w) :=
  ⟨[w], fun v hv => by rw [List.mem_singleton.1 hv]; exact hw, rfl⟩

theorem mono {q : ω → Bool} (hpq : ∀ w, p w = true → q w = true) (h : WritesOnly p s s') :
    WritesOnly q s s' := by
  obtain ⟨ws, hp, rfl⟩ := h
  exact ⟨ws, fun w hw => hpq w (hp w hw), rfl⟩

/-- A loop of such writes. -/
theorem foldl {α : Type} {f : Session act → α → Session act}
    (hf : ∀ s a, WritesOnly p s (f s a)) (l : List α) (s : Session act) :
    WritesOnly p s (l.foldl f s) := by
  induction l generalizing s with
  | nil => exact refl p s
  | cons a l ih => exact (hf s a).trans (ih (f s a))

/-- A part of the store that no write in `p` touches is kept. -/
theorem frame {β : Type} (h : WritesOnly p s s') (view : σ → β)
    (hview : ∀ w, p w = true → ∀ t, view (act t w) = view t) :
    view s'.working = view s.working := by
  obtain ⟨ws, hp, rfl⟩ := h
  rw [writes_working]
  generalize s.working = t
  induction ws generalizing t with
  | nil => rfl
  | cons w ws ih =>
    rw [List.forall_mem_cons] at hp
    rw [List.foldl_cons, ih hp.2, hview w hp.1]

theorem base (h : WritesOnly p s s') : s'.base = s.base := by
  obtain ⟨ws, _, rfl⟩ := h
  exact writes_base s ws

theorem committed (h : WritesOnly p s s') : s'.committed = s.committed := by
  obtain ⟨ws, _, rfl⟩ := h
  exact writes_committed s ws

end WritesOnly

end Session
