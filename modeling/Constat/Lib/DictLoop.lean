import Constat.Lib.Dict
import Constat.Lib.Loop

/-!
# Lib.DictLoop

A loop of updates that may raise. Each key sees its own rows only: the loop returns exactly when the
loop over each key's rows does (`exists_loopM`), and the dict then holds what they return
(`get?_loopM`). `mapValues_loopM` compares it with a loop that cannot raise.

A loop that sets each key once, `onceM`: a row whose key has another value raises. It returns
exactly when rows with one key have one value, whatever their order (`exists_onceM`), and the dict
then holds what it held and what the rows say (`get?_onceM`).
-/

namespace Dict

variable {κ υ α ε : Type} [DecidableEq κ]

/-- Set a key from its old value, unless the new one raises. -/
def updateM (d : Dict κ υ) (k : κ) (f : Option υ → Except ε υ) : Except ε (Dict κ υ) :=
  (f (d.get? k)).map (d.set k)

def loopM (key : α → κ) (f : Option υ → α → Except ε υ) (rows : List α) (d : Dict κ υ) :
    Except ε (Dict κ υ) :=
  rows.foldlM (fun d r => d.updateM (key r) fun o => f o r) d

/-- The loop over the rows of one key. -/
def rowsM (f : Option υ → α → Except ε υ) (rows : List α) (o : Option υ) :
    Except ε (Option υ) :=
  rows.foldlM (fun o r => (f o r).map some) o

variable {key : α → κ} {f : Option υ → α → Except ε υ}

theorem updateM_ok {d d' : Dict κ υ} {k : κ} {g : Option υ → Except ε υ} :
    d.updateM k g = .ok d' ↔ ∃ v, g (d.get? k) = .ok v ∧ d.set k v = d' := by
  unfold updateM
  cases g (d.get? k) <;> simp [Except.map]

theorem loopM_cons {r : α} {rows : List α} {d d' : Dict κ υ} :
    loopM key f (r :: rows) d = .ok d' ↔
      ∃ v, f (d.get? (key r)) r = .ok v ∧ loopM key f rows (d.set (key r) v) = .ok d' := by
  unfold loopM
  rw [Loop.foldlM_cons_ok]
  simp only [updateM_ok]
  constructor
  · rintro ⟨_, ⟨v, hv, rfl⟩, hrest⟩
    exact ⟨v, hv, hrest⟩
  · rintro ⟨v, hv, hrest⟩
    exact ⟨_, ⟨v, hv, rfl⟩, hrest⟩

theorem rowsM_cons {r : α} {rows : List α} {o o' : Option υ} :
    rowsM f (r :: rows) o = .ok o' ↔ ∃ v, f o r = .ok v ∧ rowsM f rows (some v) = .ok o' := by
  unfold rowsM
  rw [Loop.foldlM_cons_ok]
  cases f o r <;> simp [Except.map]

/-- The rows of another key do not matter. -/
theorem rowsM_filter_cons {r : α} {rows : List α} {k : κ} {o o' : Option υ} (hk : key r ≠ k) :
    rowsM f ((r :: rows).filter fun x => key x = k) o = .ok o' ↔
      rowsM f (rows.filter fun x => key x = k) o = .ok o' := by
  rw [List.filter_cons_of_neg (by simpa using hk)]

theorem get?_loopM {rows : List α} {d d' : Dict κ υ} (h : loopM key f rows d = .ok d') (k : κ) :
    rowsM f (rows.filter fun r => key r = k) (d.get? k) = .ok (d'.get? k) := by
  induction rows generalizing d with
  | nil => cases h; rfl
  | cons r rows ih =>
    obtain ⟨v, hv, hrest⟩ := loopM_cons.1 h
    have hrows := ih hrest
    rw [get?_set] at hrows
    by_cases hk : k = key r
    · subst hk
      rw [if_pos rfl] at hrows
      rw [List.filter_cons_of_pos (by simp)]
      exact rowsM_cons.2 ⟨v, hv, hrows⟩
    · rw [if_neg hk] at hrows
      exact (rowsM_filter_cons (Ne.symm hk)).2 hrows

theorem exists_loopM {rows : List α} {d : Dict κ υ}
    (h : ∀ k, ∃ o, rowsM f (rows.filter fun r => key r = k) (d.get? k) = .ok o) :
    ∃ d', loopM key f rows d = .ok d' := by
  induction rows generalizing d with
  | nil => exact ⟨d, rfl⟩
  | cons r rows ih =>
    obtain ⟨o, ho⟩ := h (key r)
    rw [List.filter_cons_of_pos (by simp)] at ho
    obtain ⟨v, hv, hhead⟩ := rowsM_cons.1 ho
    have hrest : ∀ k, ∃ o, rowsM f (rows.filter fun r => key r = k)
        ((d.set (key r) v).get? k) = .ok o := by
      intro k
      rw [get?_set]
      by_cases hk : k = key r
      · subst hk
        rw [if_pos rfl]
        exact ⟨o, hhead⟩
      · obtain ⟨o', ho'⟩ := h k
        rw [if_neg hk]
        exact ⟨o', (rowsM_filter_cons (Ne.symm hk)).1 ho'⟩
    obtain ⟨d', hd'⟩ := ih hrest
    exact ⟨d', loopM_cons.2 ⟨v, hv, hd'⟩⟩

theorem loopM_append {rows rows' : List α} {d d' : Dict κ υ} :
    loopM key f (rows ++ rows') d = .ok d' ↔
      ∃ d₁, loopM key f rows d = .ok d₁ ∧ loopM key f rows' d₁ = .ok d' := by
  unfold loopM
  rw [List.foldlM_append]
  exact Loop.bind_ok

theorem mem_keys_loopM {rows : List α} {d d' : Dict κ υ} (h : loopM key f rows d = .ok d') (k : κ) :
    k ∈ d'.keys ↔ k ∈ d.keys ∨ ∃ r ∈ rows, key r = k := by
  induction rows generalizing d with
  | nil => cases h; simp
  | cons r rows ih =>
    obtain ⟨v, _, hrest⟩ := loopM_cons.1 h
    rw [ih hrest, mem_keys_set]
    simp only [List.mem_cons, exists_eq_or_imp]
    rw [eq_comm (a := k), or_assoc, or_left_comm]

/-- What the loop does with the part `g` of the values, a loop that cannot raise does with the part
`g'` of its own, when each step keeps the two equal. -/
theorem mapValues_loopM {υ' ω : Type} (g : υ → ω) (g' : υ' → ω) (f' : Option υ' → α → υ')
    {rows : List α}
    (hstep : ∀ r ∈ rows, ∀ o o' v, o.map g = o'.map g' → f o r = .ok v → g v = g' (f' o' r)) :
    ∀ {d d' : Dict κ υ} {e : Dict κ υ'}, d.mapValues g = e.mapValues g' →
      loopM key f rows d = .ok d' →
      d'.mapValues g = (rows.foldl (fun e r => e.update (key r) fun o => f' o r) e).mapValues g' := by
  induction rows with
  | nil => intro d d' e he h; cases h; exact he
  | cons r rows ih =>
    intro d d' e he h
    rw [List.forall_mem_cons] at hstep
    obtain ⟨v, hv, hrest⟩ := loopM_cons.1 h
    have hold : (d.get? (key r)).map g = (e.get? (key r)).map g' := by
      rw [← get?_mapValues, he, get?_mapValues]
    rw [List.foldl_cons]
    refine ih hstep.2 ?_ hrest
    rw [update, mapValues_set, mapValues_set, he, hstep.1 _ _ v hold hv]

/-! ## Each key once -/

section Once

variable [DecidableEq υ] {name : α → Except ε κ} {val : α → υ} {clash : α → υ → ε}

/-- The value, unless there is another one. -/
def once (clash : υ → ε) (v : υ) : Option υ → Except ε υ
  | some w => if w = v then .ok v else .error (clash w)
  | none => .ok v

def onceM (name : α → Except ε κ) (val : α → υ) (clash : α → υ → ε) (rows : List α)
    (d : Dict κ υ) : Except ε (Dict κ υ) :=
  rows.foldlM (fun d r =>
    match name r with
    | .error e => .error e
    | .ok k => d.updateM k (once (clash r) (val r))) d

theorem once_ok {clash : υ → ε} {v w : υ} {o : Option υ} :
    once clash v o = .ok w ↔ w = v ∧ ∀ u, o = some u → u = v := by
  cases o with
  | none => simp [once, eq_comm]
  | some u =>
    unfold once
    by_cases h : u = v
    · simp [h, eq_comm]
    · simp [h]

theorem onceM_cons {r : α} {rows : List α} {d d' : Dict κ υ} :
    onceM name val clash (r :: rows) d = .ok d' ↔
      ∃ k, name r = .ok k ∧ (∀ u, d.get? k = some u → u = val r) ∧
        onceM name val clash rows (d.set k (val r)) = .ok d' := by
  unfold onceM
  rw [Loop.foldlM_cons_ok]
  cases name r with
  | error e => simp
  | ok k =>
    simp only [updateM_ok, once_ok, Except.ok.injEq, exists_eq_left']
    constructor
    · rintro ⟨_, ⟨v, ⟨rfl, hold⟩, rfl⟩, hrest⟩
      exact ⟨hold, hrest⟩
    · rintro ⟨hold, hrest⟩
      exact ⟨_, ⟨_, ⟨rfl, hold⟩, rfl⟩, hrest⟩

theorem get?_onceM {rows : List α} {d d' : Dict κ υ} (h : onceM name val clash rows d = .ok d')
    (k : κ) (v : υ) :
    d'.get? k = some v ↔ (∃ r ∈ rows, name r = .ok k ∧ val r = v) ∨ d.get? k = some v := by
  induction rows generalizing d with
  | nil => cases h; simp
  | cons r rows ih =>
    obtain ⟨l, hl, hold, hrest⟩ := onceM_cons.1 h
    rw [ih hrest, get?_set]
    simp only [List.mem_cons, exists_eq_or_imp, hl, Except.ok.injEq]
    by_cases hk : k = l
    · subst hk
      rw [if_pos rfl, Option.some.injEq]
      constructor
      · rintro (hrow | hr)
        · exact .inl (.inr hrow)
        · exact .inl (.inl ⟨rfl, hr⟩)
      · rintro ((⟨_, hr⟩ | hrow) | hd)
        · exact .inr hr
        · exact .inl hrow
        · exact .inr (hold v hd).symm
    · have hlk : ¬ l = k := fun he => hk he.symm
      rw [if_neg hk]
      simp [hlk]

/-- The rows agree among themselves and with what the dict holds. -/
def Agree (name : α → Except ε κ) (val : α → υ) (rows : List α) (d : Dict κ υ) : Prop :=
  ∀ r ∈ rows, ∃ k, name r = .ok k ∧ (∀ r' ∈ rows, name r' = .ok k → val r' = val r) ∧
    ∀ u, d.get? k = some u → u = val r

theorem exists_onceM {rows : List α} {d : Dict κ υ} :
    (∃ d', onceM name val clash rows d = .ok d') ↔ Agree name val rows d := by
  induction rows generalizing d with
  | nil => exact ⟨fun _ r hr => (by cases hr), fun _ => ⟨d, rfl⟩⟩
  | cons r rows ih =>
    constructor
    · rintro ⟨d', h⟩
      obtain ⟨k, hk, hold, hrest⟩ := onceM_cons.1 h
      have hagree := ih.1 ⟨d', hrest⟩
      -- a row under the key just set has the value just set
      have hone : ∀ x ∈ rows, name x = .ok k → val x = val r := by
        intro x hx hxk
        obtain ⟨l, hl, _, hset⟩ := hagree x hx
        obtain rfl : k = l := by rw [hxk] at hl; exact Except.ok.inj hl
        exact (hset (val r) (by rw [get?_set, if_pos rfl])).symm
      intro x hx
      rcases List.mem_cons.1 hx with rfl | hmem
      · refine ⟨k, hk, ?_, hold⟩
        intro y hy hyk
        rcases List.mem_cons.1 hy with rfl | hy
        · rfl
        · exact hone y hy hyk
      · obtain ⟨l, hl, hsame, hset⟩ := hagree x hmem
        refine ⟨l, hl, ?_, ?_⟩
        · intro y hy hyl
          rcases List.mem_cons.1 hy with rfl | hy
          · obtain rfl : k = l := by rw [hk] at hyl; exact Except.ok.inj hyl
            exact (hone x hmem hl).symm
          · exact hsame y hy hyl
        · intro u hu
          by_cases he : l = k
          · subst he
            rw [hold u hu, hone x hmem hl]
          · exact hset u (by rw [get?_set, if_neg he, hu])
    · intro hagree
      obtain ⟨k, hk, hsame, hold⟩ := hagree r List.mem_cons_self
      have hrest : Agree name val rows (d.set k (val r)) := by
        intro x hx
        obtain ⟨l, hl, hxsame, hxold⟩ := hagree x (List.mem_cons_of_mem r hx)
        refine ⟨l, hl, fun y hy => hxsame y (List.mem_cons_of_mem r hy), ?_⟩
        intro u hu
        rw [get?_set] at hu
        by_cases he : l = k
        · subst he
          rw [if_pos rfl, Option.some.injEq] at hu
          rw [← hu]
          exact (hsame x (List.mem_cons_of_mem r hx) hl).symm
        · rw [if_neg he] at hu
          exact hxold u hu
      obtain ⟨d', hd'⟩ := ih.2 hrest
      exact ⟨d', onceM_cons.2 ⟨k, hk, hold, hd'⟩⟩

end Once

end Dict
