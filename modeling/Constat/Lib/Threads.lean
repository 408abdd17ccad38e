import Constat.Lib.Presence
import Constat.Lib.Trace

/-!
# Lib.Threads

Threads over a shared state, one atomic step at a time, in any order. A step may call on a shared
resource: it takes one unit of a kind, or gives one back. The calls are logged with their threads.

* `Accounts`     — a thread's call says how what the thread holds changes.
* `tells_step`   — if every step accounts for its call, each thread takes and gives back in turn,
                   and what is taken and not given back is what the threads hold.
* `counted_step` — if besides the shared state counts the calls, its count of a kind is the number
                   of threads that hold one.
-/

namespace Threads

variable {ε γ τ κ : Type}

structure System (γ τ κ : Type) where
  shared : γ
  threads : List τ
  /-- `true` takes a unit, `false` gives it back. -/
  calls : List ((Nat × κ) × Bool)

structure Move (γ τ κ : Type) where
  shared : γ
  thread : τ
  call : Option (κ × Bool)

/-- The thread `e.1` does one step. -/
def step (advance : ε → γ → τ → Move γ τ κ) (s : System γ τ κ) (e : Nat × ε) : System γ τ κ :=
  match s.threads[e.1]? with
  | none => s
  | some t =>
    let m := advance e.2 s.shared t
    { shared := m.shared
      threads := s.threads.set e.1 m.thread
      calls := s.calls ++ (m.call.map fun c => ((e.1, c.1), c.2)).toList }

def Accounts (held : τ → Option κ) (t : τ) : Option (κ × Bool) → τ → Prop
  | none, t' => held t' = held t
  | some (k, true), t' => held t = none ∧ held t' = some k
  | some (k, false), t' => held t = some k ∧ held t' = none

/-- The thread `k.1` holds a unit of `k.2`. -/
def Holds (held : τ → Option κ) (s : System γ τ κ) (k : Nat × κ) : Prop :=
  (s.threads[k.1]?).bind held = some k.2

section

variable {advance : ε → γ → τ → Move γ τ κ} {held : τ → Option κ}

theorem step_of_some {s : System γ τ κ} {i : Nat} {t : τ} (h : s.threads[i]? = some t) (e : ε) :
    step advance s (i, e) =
      { shared := (advance e s.shared t).shared
        threads := s.threads.set i (advance e s.shared t).thread
        calls := s.calls ++ ((advance e s.shared t).call.map fun c => ((i, c.1), c.2)).toList } := by
  rw [step, h]

theorem step_of_none {s : System γ τ κ} {i : Nat} (h : s.threads[i]? = none) (e : ε) :
    step advance s (i, e) = s := by
  rw [step, h]

/-- A thread that is set holds what it holds; the others hold what they held. -/
theorem holds_set {s : System γ τ κ} {i : Nat} {t t' : τ} (h : s.threads[i]? = some t) {g : γ}
    {calls : List ((Nat × κ) × Bool)} (k : Nat × κ) :
    Holds held ⟨g, s.threads.set i t', calls⟩ k ↔
      if k.1 = i then held t' = some k.2 else Holds held s k := by
  obtain ⟨hi, _⟩ := List.getElem?_eq_some_iff.1 h
  by_cases hk : k.1 = i
  · rw [if_pos hk, Holds, hk]
    simp [hi]
  · rw [if_neg hk, Holds, Holds, List.getElem?_set_ne fun he => hk he.symm]

theorem holds_self {s : System γ τ κ} {i : Nat} {t : τ} (h : s.threads[i]? = some t) (k : κ) :
    Holds held s (i, k) ↔ held t = some k := by
  rw [Holds, h, Option.bind_some]

section

variable [DecidableEq κ]

/-! ## The calls of a thread -/

theorem tells_step (haccounts : ∀ e g t, Accounts held t (advance e g t).call (advance e g t).thread)
    (s : System γ τ κ) (e : Nat × ε) (h : Presence.Tells s.calls (Holds held s)) :
    Presence.Tells (step advance s e).calls (Holds held (step advance s e)) := by
  obtain ⟨i, e⟩ := e
  cases ht : s.threads[i]? with
  | none => rwa [step_of_none ht]
  | some t =>
    rw [step_of_some ht]
    have hacc := haccounts e s.shared t
    generalize advance e s.shared t = m at hacc ⊢
    match hcall : m.call with
    | none =>
      rw [hcall] at hacc
      simp only [Option.map_none, Option.toList_none, List.append_nil]
      refine h.congr fun k => ?_
      rw [holds_set ht]
      by_cases hk : k.1 = i
      · rw [if_pos hk, show held m.thread = held t from hacc, ← holds_self ht, ← hk]
      · rw [if_neg hk]
    | some (k, true) =>
      rw [hcall] at hacc
      obtain ⟨hfree, htaken⟩ := hacc
      refine h.come (k := (i, k)) ?_ fun k' => ?_
      · rw [holds_self ht, hfree]
        exact nofun
      · rw [holds_set ht]
        by_cases hk : k'.1 = i
        · have hself : ¬ Holds held s k' := by
            rw [← Prod.mk.eta (p := k'), hk, holds_self ht, hfree]
            exact nofun
          rw [if_pos hk, htaken, Option.some_inj, or_iff_left hself]
          exact ⟨fun he => Prod.ext hk he.symm, fun he => (congrArg Prod.snd he).symm⟩
        · rw [if_neg hk, or_iff_right fun he => hk (congrArg Prod.fst he)]
    | some (k, false) =>
      rw [hcall] at hacc
      obtain ⟨hheld, hgiven⟩ := hacc
      refine h.go (k := (i, k)) ((holds_self ht k).2 hheld) fun k' => ?_
      rw [holds_set ht]
      by_cases hk : k'.1 = i
      · rw [if_pos hk, hgiven]
        refine ⟨nofun, fun ⟨hne, hself⟩ => ?_⟩
        rw [← Prod.mk.eta (p := k'), hk, holds_self ht, hheld, Option.some_inj] at hself
        exact absurd (Prod.ext hk hself.symm) hne
      · rw [if_neg hk]
        exact (and_iff_right fun he => hk (congrArg Prod.fst he)).symm

/-! ## Counting -/

/-- The number of threads that hold a unit of `k`. -/
def holders (held : τ → Option κ) (s : System γ τ κ) (k : κ) : Nat :=
  s.threads.countP fun t => held t = some k

/-- The shared state counts the units that are taken. -/
def Counts (count : γ → κ → Nat) (g : γ) : Option (κ × Bool) → γ → Prop
  | none, g' => ∀ k, count g' k = count g k
  | some (k, true), g' => ∀ k', count g' k' = if k' = k then count g k + 1 else count g k'
  | some (k, false), g' => ∀ k', count g' k' = if k' = k then count g k - 1 else count g k'

theorem holders_set {s : System γ τ κ} {i : Nat} {t t' : τ} (h : s.threads[i]? = some t) {g : γ}
    {calls : List ((Nat × κ) × Bool)} (k : κ) :
    holders held ⟨g, s.threads.set i t', calls⟩ k + (if held t = some k then 1 else 0) =
      holders held s k + if held t' = some k then 1 else 0 := by
  obtain ⟨hi, hget⟩ := List.getElem?_eq_some_iff.1 h
  have hset := List.countP_set (p := fun t => decide (held t = some k)) (a := t') hi
  have hpos : held t = some k → 0 < s.threads.countP fun t => decide (held t = some k) := by
    intro hk
    exact List.countP_pos_iff.2 ⟨t, hget ▸ List.getElem_mem hi, decide_eq_true hk⟩
  simp only [hget, decide_eq_true_eq] at hset
  rw [holders, hset]
  by_cases hk : held t = some k
  · have hone := hpos hk
    rw [if_pos hk, holders]
    omega
  · rw [if_neg hk, holders]
    omega

theorem counted_step {count : γ → κ → Nat}
    (haccounts : ∀ e g t, Accounts held t (advance e g t).call (advance e g t).thread)
    (hcounts : ∀ e g t, Counts count g (advance e g t).call (advance e g t).shared)
    (s : System γ τ κ) (e : Nat × ε) (h : ∀ k, count s.shared k = holders held s k) (k : κ) :
    count (step advance s e).shared k = holders held (step advance s e) k := by
  obtain ⟨i, e⟩ := e
  cases ht : s.threads[i]? with
  | none => rw [step_of_none ht]; exact h k
  | some t =>
    rw [step_of_some ht]
    have hacc := haccounts e s.shared t
    have hcnt := hcounts e s.shared t
    generalize advance e s.shared t = m at hacc hcnt ⊢
    have hset : holders held ⟨m.shared, s.threads.set i m.thread,
          s.calls ++ (m.call.map fun c => ((i, c.1), c.2)).toList⟩ k +
        (if held t = some k then 1 else 0) =
          holders held s k + if held m.thread = some k then 1 else 0 := holders_set ht k
    show count m.shared k = _
    match hcall : m.call with
    | none =>
      rw [hcall] at hacc hcnt hset
      rw [show held m.thread = held t from hacc] at hset
      rw [hcnt k, h k]
      omega
    | some (k', true) =>
      rw [hcall] at hacc hcnt hset
      rw [hacc.1, hacc.2] at hset
      have hk := h k'
      rw [hcnt k, h k]
      by_cases he : k = k'
      · subst he
        simp only [reduceCtorEq, if_false, if_true] at hset ⊢
        omega
      · have he' : ¬ k' = k := fun hn => he hn.symm
        simp only [reduceCtorEq, he, he', Option.some.injEq, if_false] at hset ⊢
        omega
    | some (k', false) =>
      rw [hcall] at hacc hcnt hset
      rw [hacc.1, hacc.2] at hset
      have hk := h k'
      rw [hcnt k, h k]
      by_cases he : k = k'
      · subst he
        simp only [reduceCtorEq, if_false, if_true] at hset ⊢
        omega
      · have he' : ¬ k' = k := fun hn => he hn.symm
        simp only [reduceCtorEq, he, he', Option.some.injEq, if_false] at hset ⊢
        omega

end

end

end Threads
