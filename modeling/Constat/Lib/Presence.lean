import Mathlib.Data.Finset.Card
import Mathlib.Data.Finset.Erase
import Mathlib.Data.Finset.Insert
import Mathlib.Data.List.Nodup

/-!
# Lib.Presence

A log of things that come and go. An entry is a key and whether it has come (`true`) or gone
(`false`); the log is only appended to.

* `kinds`  — the entries of one key, in their order.
* `replay` — the keys that are present when the log is folded from nothing.
* `Tells`  — the log is the history of a set: every key comes first, then goes and comes in turn,
  and the fold is the set.

`Tells.append` is the induction step: a batch with one entry for each key that the new set has and
the old one has not, and for each key it has lost, carries the log from the old set to the new
(`kinds_batch` computes the entries of such a batch). `Tells.map` renames the keys.
-/

namespace Presence

section

variable {κ : Type} [DecidableEq κ]

def kinds (log : List (κ × Bool)) (k : κ) : List Bool := (log.filter fun e => e.1 = k).map (·.2)

/-- `b`, not `b`, `b`, and so on. -/
def Alternates : Bool → List Bool → Prop
  | _, [] => True
  | b, x :: xs => x = b ∧ Alternates (!b) xs

def put (s : Finset κ) (e : κ × Bool) : Finset κ := if e.2 then insert e.1 s else s.erase e.1

def replay (log : List (κ × Bool)) : Finset κ := log.foldl put ∅

structure Tells (log : List (κ × Bool)) (S : κ → Prop) : Prop where
  alternates : ∀ k, Alternates true (kinds log k)
  current : ∀ k, k ∈ replay log ↔ S k

/-! ## Projections -/

@[simp] theorem kinds_nil (k : κ) : kinds ([] : List (κ × Bool)) k = [] := rfl

@[simp] theorem kinds_append (log log' : List (κ × Bool)) (k : κ) :
    kinds (log ++ log') k = kinds log k ++ kinds log' k := by
  simp [kinds]

theorem kinds_cons (e : κ × Bool) (log : List (κ × Bool)) (k : κ) :
    kinds (e :: log) k = if e.1 = k then e.2 :: kinds log k else kinds log k := by
  by_cases h : e.1 = k <;> simp [kinds, h]

theorem mem_foldl_put (log : List (κ × Bool)) (s : Finset κ) (k : κ) :
    k ∈ log.foldl put s ↔ (kinds log k).getLastD (decide (k ∈ s)) = true := by
  induction log generalizing s with
  | nil => simp
  | cons e log ih =>
    rw [List.foldl_cons, ih, kinds_cons]
    obtain ⟨k', b⟩ := e
    by_cases h : k' = k
    · subst h
      rw [if_pos rfl, List.getLastD_cons]
      cases b <;> simp [put]
    · have h' : ¬ k = k' := fun he => h he.symm
      cases b <;> simp [put, h, h']

/-- A key is present when its last entry is an arrival. -/
theorem mem_replay {log : List (κ × Bool)} {k : κ} :
    k ∈ replay log ↔ (kinds log k).getLastD false = true := by
  rw [replay, mem_foldl_put]
  simp

theorem alternates_of_append {b : Bool} {xs ys : List Bool} (h : Alternates b (xs ++ ys)) :
    Alternates b xs := by
  induction xs generalizing b with
  | nil => exact trivial
  | cons x xs ih =>
    obtain ⟨hx, hrest⟩ := h
    exact ⟨hx, ih hrest⟩

/-- An alternating list goes on with the opposite of its last entry. -/
theorem alternates_append {b : Bool} {xs ys : List Bool} (h : Alternates b xs) :
    Alternates b (xs ++ ys) ↔ Alternates (!(xs.getLastD (!b))) ys := by
  induction xs generalizing b with
  | nil => simp
  | cons x xs ih =>
    obtain ⟨rfl, h⟩ := h
    rw [List.cons_append, Alternates, List.getLastD_cons]
    have hrest := ih h
    rw [Bool.not_not] at hrest
    rw [hrest]
    exact and_iff_right rfl

/-! ## Batches -/

theorem kinds_map_pair {l : List κ} (h : l.Nodup) (b : Bool) (k : κ) :
    kinds (l.map fun x => (x, b)) k = if k ∈ l then [b] else [] := by
  induction l with
  | nil => rfl
  | cons x l ih =>
    obtain ⟨hx, hl⟩ := List.nodup_cons.1 h
    rw [List.map_cons, kinds_cons, ih hl]
    by_cases hk : x = k
    · subst hk
      simp [hx]
    · have hk' : ¬ k = x := fun he => hk he.symm
      simp [hk, hk']

/-- The entries of the keys that have come and of those that have gone. -/
theorem kinds_batch {come gone : List κ} (hcome : come.Nodup) (hgone : gone.Nodup) (k : κ) :
    kinds (come.map (fun x => (x, true)) ++ gone.map (fun x => (x, false))) k =
      (if k ∈ come then [true] else []) ++ if k ∈ gone then [false] else [] := by
  rw [kinds_append, kinds_map_pair hcome, kinds_map_pair hgone]

/-! ## Histories -/

namespace Tells

variable {log : List (κ × Bool)} {S S' : κ → Prop}

theorem nil {S : κ → Prop} (h : ∀ k, ¬ S k) : Tells ([] : List (κ × Bool)) S :=
  ⟨fun _ => trivial, fun k => by simpa [replay] using h k⟩

theorem congr (h : Tells log S) (hS : ∀ k, S k ↔ S' k) : Tells log S' :=
  ⟨h.alternates, fun k => (h.current k).trans (hS k)⟩

/-- The last entry of a key says whether it is there. -/
theorem last (h : Tells log S) (k : κ) : (kinds log k).getLastD false = true ↔ S k := by
  rw [← mem_replay]
  exact h.current k

theorem append (h : Tells log S) {come gone : List κ} (hcome : come.Nodup) (hgone : gone.Nodup)
    (hmem : ∀ k, k ∈ come ↔ S' k ∧ ¬ S k) (hmem' : ∀ k, k ∈ gone ↔ S k ∧ ¬ S' k) :
    Tells (log ++ (come.map (fun x => (x, true)) ++ gone.map (fun x => (x, false)))) S' := by
  have hbatch := kinds_batch hcome hgone
  constructor
  · intro k
    rw [kinds_append, alternates_append (h.alternates k), hbatch]
    have hlast := h.last k
    by_cases hS : S k
    · have hk : k ∉ come := fun hc => ((hmem k).1 hc).2 hS
      rw [if_neg hk, Bool.not_true, hlast.2 hS]
      split <;> simp [Alternates]
    · have hk : k ∉ gone := fun hg => hS ((hmem' k).1 hg).1
      have hfalse : (kinds log k).getLastD false = false :=
        Bool.eq_false_iff.2 fun ht => hS (hlast.1 ht)
      rw [if_neg hk, Bool.not_true, hfalse]
      split <;> simp [Alternates]
  · intro k
    rw [mem_replay, kinds_append, hbatch]
    have hlast := h.last k
    by_cases hc : k ∈ come
    · have hk : k ∉ gone := fun hg => ((hmem k).1 hc).2 ((hmem' k).1 hg).1
      simp [hc, hk, ((hmem k).1 hc).1]
    · by_cases hg : k ∈ gone
      · simp [hc, hg, ((hmem' k).1 hg).2]
      · rw [if_neg hc, if_neg hg, List.append_nil, List.append_nil, hlast]
        rw [hmem] at hc
        rw [hmem'] at hg
        tauto

/-- A key that is not there comes. -/
theorem come (h : Tells log S) {k : κ} (hk : ¬ S k) (hS : ∀ k', S' k' ↔ k' = k ∨ S k') :
    Tells (log ++ [(k, true)]) S' := by
  refine h.append (List.nodup_singleton k) List.nodup_nil (fun k' => ?_) (fun k' => ?_)
  · rw [List.mem_singleton, hS]
    constructor
    · rintro rfl
      exact ⟨.inl rfl, hk⟩
    · rintro ⟨heq | hold, hnot⟩
      · exact heq
      · exact absurd hold hnot
  · rw [hS]
    simp only [List.not_mem_nil, false_iff, not_and, not_not]
    exact fun hold => .inr hold

/-- A key that is there goes. -/
theorem go (h : Tells log S) {k : κ} (hk : S k) (hS : ∀ k', S' k' ↔ k' ≠ k ∧ S k') :
    Tells (log ++ [(k, false)]) S' := by
  refine h.append List.nodup_nil (List.nodup_singleton k) (fun k' => ?_) (fun k' => ?_)
  · rw [hS]
    simp only [List.not_mem_nil, false_iff, not_and, not_not]
    exact fun hold => hold.2
  · rw [List.mem_singleton, hS]
    constructor
    · rintro rfl
      exact ⟨hk, fun hn => hn.1 rfl⟩
    · rintro ⟨hold, hnot⟩
      by_contra hne
      exact hnot ⟨hne, hold⟩

end Tells

/-! ## Counting -/

theorem kinds_filter (log : List (κ × Bool)) (q : κ → Bool) (k : κ) :
    kinds (log.filter fun e => q e.1) k = if q k then kinds log k else [] := by
  induction log with
  | nil => simp
  | cons e log ih =>
    rw [List.filter_cons]
    by_cases he : q e.1 = true
    · rw [if_pos he, kinds_cons, kinds_cons, ih]
      by_cases hk : e.1 = k
      · subst hk
        simp [he]
      · simp [hk]
    · rw [if_neg he, ih, kinds_cons]
      by_cases hk : e.1 = k
      · subst hk
        simp [he]
      · simp [hk]

theorem replay_filter (log : List (κ × Bool)) (q : κ → Bool) :
    replay (log.filter fun e => q e.1) = (replay log).filter fun k => q k = true := by
  ext k
  rw [Finset.mem_filter, mem_replay, mem_replay, kinds_filter]
  by_cases hk : q k = true <;> simp [hk]

/-- What has come is what has gone and what is there. -/
theorem come_eq_gone_add {log : List (κ × Bool)} (h : ∀ k, Alternates true (kinds log k)) :
    log.countP (fun e => e.2) = log.countP (fun e => !e.2) + (replay log).card := by
  induction log using List.reverseRecOn with
  | nil => rfl
  | append_singleton log e ih =>
    have hsplit : ∀ k, Alternates true (kinds log k) ∧
        Alternates (!((kinds log k).getLastD false)) (kinds [e] k) := by
      intro k
      have hall := h k
      rw [kinds_append] at hall
      have hfirst := alternates_of_append hall
      exact ⟨hfirst, (alternates_append hfirst).1 hall⟩
    have hbefore := ih fun k => (hsplit k).1
    have hlast := (hsplit e.1).2
    have hkinds : kinds [e] e.1 = [e.2] := by simp [kinds]
    rw [hkinds] at hlast
    have hreplay : replay (log ++ [e]) = put (replay log) e := by
      rw [replay, List.foldl_append]
      rfl
    obtain ⟨k, b⟩ := e
    have hmem : k ∈ replay log ↔ (kinds log k).getLastD false = true := mem_replay
    cases b with
    | true =>
      have hnot : k ∉ replay log := by
        rw [hmem]
        intro hthere
        rw [hthere] at hlast
        cases hlast.1
      rw [hreplay, put, if_pos rfl, Finset.card_insert_of_notMem hnot]
      simp only [List.countP_append, List.countP_singleton]
      simp
      omega
    | false =>
      have hthere : k ∈ replay log := by
        rw [hmem]
        have := hlast.1
        simpa using this.symm
      have hpos := Finset.card_pos.2 ⟨k, hthere⟩
      rw [hreplay, put, if_neg Bool.false_ne_true, Finset.card_erase_of_mem hthere]
      simp only [List.countP_append, List.countP_singleton]
      simp
      omega

end

/-! ## Renaming -/

section

variable {κ κ' : Type} [DecidableEq κ] [DecidableEq κ'] {log : List (κ × Bool)} {g : κ → κ'}

def rename (g : κ → κ') (log : List (κ × Bool)) : List (κ' × Bool) := log.map fun e => (g e.1, e.2)

theorem kinds_rename (hg : ∀ e ∈ log, ∀ e' ∈ log, g e.1 = g e'.1 → e.1 = e'.1) {e : κ × Bool}
    (he : e ∈ log) : kinds (rename g log) (g e.1) = kinds log e.1 := by
  rw [kinds, rename, List.filter_map, List.map_map, kinds]
  refine congrArg _ (List.filter_congr fun e' he' => ?_)
  simp only [Function.comp_apply, decide_eq_decide]
  exact ⟨fun h => hg e' he' e he h, fun h => congrArg g h⟩

theorem kinds_eq_nil {k : κ} (h : ∀ e ∈ log, e.1 ≠ k) : kinds log k = [] := by
  rw [kinds, List.map_eq_nil_iff, List.filter_eq_nil_iff]
  intro e he hk
  exact h e he (of_decide_eq_true hk)

/-- A name that keeps the keys of the log apart may stand for them. -/
theorem Tells.map {S : κ → Prop} (h : Tells log S)
    (hg : ∀ e ∈ log, ∀ e' ∈ log, g e.1 = g e'.1 → e.1 = e'.1) :
    Tells (rename g log) fun k' => ∃ k, g k = k' ∧ S k := by
  have hlogged : ∀ k, S k → ∃ e ∈ log, e.1 = k := by
    intro k hk
    by_contra hno
    push Not at hno
    have hlast := (h.last k).2 hk
    rw [kinds_eq_nil hno] at hlast
    cases hlast
  constructor
  · intro k'
    by_cases hk : ∃ e ∈ log, g e.1 = k'
    · obtain ⟨e, he, rfl⟩ := hk
      rw [kinds_rename hg he]
      exact h.alternates e.1
    · push Not at hk
      rw [kinds_eq_nil]
      · trivial
      · intro e he
        obtain ⟨e₀, he₀, rfl⟩ := List.mem_map.1 he
        exact hk e₀ he₀
  · intro k'
    rw [mem_replay]
    by_cases hk : ∃ e ∈ log, g e.1 = k'
    · obtain ⟨e, he, rfl⟩ := hk
      rw [kinds_rename hg he, h.last]
      constructor
      · exact fun hS => ⟨e.1, rfl, hS⟩
      · rintro ⟨k, hgk, hS⟩
        obtain ⟨e', he', rfl⟩ := hlogged k hS
        rwa [hg e' he' e he hgk] at hS
    · have hnil : kinds (rename g log) k' = [] := by
        push Not at hk
        refine kinds_eq_nil fun e he => ?_
        obtain ⟨e₀, he₀, rfl⟩ := List.mem_map.1 he
        exact hk e₀ he₀
      rw [hnil]
      constructor
      · intro hf; cases hf
      · rintro ⟨k, hgk, hS⟩
        obtain ⟨e, he, rfl⟩ := hlogged k hS
        exact absurd ⟨e, he, hgk⟩ hk

end

end Presence
