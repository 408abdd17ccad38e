import Mathlib.Data.List.Nodup
import Mathlib.Data.List.Basic

/-!
# Lib.Table

A table of rows with a primary key, as a store keeps it: the rows in insertion order, no key
twice, and the next key to hand out, which no row has had yet. Both facts are fields, so every
table that can be built has them.

* `put` is an insert or an update by key: the row with the same key is replaced in place, a new
  row goes to the end (`mem_put`). A row put under `next` is a new one (`fresh_next`).
* `deleteWhere` removes the rows a filter selects (`mem_deleteWhere`) and hands no key out again.
* `get?` looks a key up; because keys are unique it finds exactly the row that is there
  (`get?_eq_some`).
-/

namespace Table

variable {α κ : Type} [DecidableEq κ]

/-- Replace the row with the key of `x`, or append `x`. -/
def putRow (key : α → κ) (x : α) : List α → List α
  | [] => [x]
  | y :: ys => if key y = key x then x :: ys else y :: putRow key x ys

theorem map_key_putRow (key : α → κ) (x : α) (l : List α) :
    (putRow key x l).map key = if key x ∈ l.map key then l.map key else l.map key ++ [key x] := by
  induction l with
  | nil => rfl
  | cons y ys ih =>
    simp only [putRow]
    by_cases hy : key y = key x
    · simp [hy]
    · have hxy : key x ≠ key y := fun h => hy h.symm
      rw [if_neg hy, List.map_cons, ih]
      by_cases hm : key x ∈ ys.map key
      · rw [if_pos hm, if_pos (by simpa [hxy] using hm), List.map_cons]
      · rw [if_neg hm, if_neg (by simpa [hxy] using hm), List.map_cons, List.cons_append]

theorem mem_putRow {key : α → κ} {x z : α} {l : List α} (hl : (l.map key).Nodup) :
    z ∈ putRow key x l ↔ z = x ∨ (z ∈ l ∧ key z ≠ key x) := by
  induction l with
  | nil => simp [putRow]
  | cons y ys ih =>
    rw [List.map_cons, List.nodup_cons] at hl
    simp only [putRow]
    by_cases hy : key y = key x
    · have hys : ∀ w ∈ ys, key w ≠ key x := by
        intro w hw he
        exact hl.1 (List.mem_map.2 ⟨w, hw, he.trans hy.symm⟩)
      rw [if_pos hy, List.mem_cons, List.mem_cons]
      constructor
      · rintro (rfl | hz)
        · exact .inl rfl
        · exact .inr ⟨.inr hz, hys z hz⟩
      · rintro (rfl | ⟨rfl | hz, hk⟩)
        · exact .inl rfl
        · exact absurd hy hk
        · exact .inr hz
    · rw [if_neg hy, List.mem_cons, ih hl.2, List.mem_cons]
      constructor
      · rintro (rfl | rfl | ⟨hz, hk⟩)
        · exact .inr ⟨.inl rfl, hy⟩
        · exact .inl rfl
        · exact .inr ⟨.inr hz, hk⟩
      · rintro (rfl | ⟨rfl | hz, hk⟩)
        · exact .inr (.inl rfl)
        · exact .inl rfl
        · exact .inr (.inr ⟨hz, hk⟩)

theorem putRow_of_not_mem {key : α → κ} {x : α} {l : List α} (h : ∀ y ∈ l, key y ≠ key x) :
    putRow key x l = l ++ [x] := by
  induction l with
  | nil => rfl
  | cons y ys ih =>
    rw [List.forall_mem_cons] at h
    rw [putRow, if_neg h.1, ih h.2, List.cons_append]

/-- Replacing a row by one with the same view keeps the view of the list. -/
theorem map_putRow {β : Type} {key : α → κ} {view : α → β} {x : α} {l : List α}
    (hx : ∃ y ∈ l, key y = key x)
    (hview : ∀ y ∈ l, key y = key x → view y = view x) : (putRow key x l).map view = l.map view := by
  induction l with
  | nil => obtain ⟨y, hy, _⟩ := hx; cases hy
  | cons y ys ih =>
    rw [List.forall_mem_cons] at hview
    simp only [putRow]
    by_cases hy : key y = key x
    · rw [if_pos hy, List.map_cons, List.map_cons, hview.1 hy]
    · rw [if_neg hy, List.map_cons, List.map_cons, ih _ hview.2]
      obtain ⟨z, hz, hzk⟩ := hx
      rcases List.mem_cons.1 hz with rfl | hz
      · exact absurd hzk hy
      · exact ⟨z, hz, hzk⟩

end Table

/-- Rows in insertion order, no key twice; `next` is above every key ever used. -/
structure Table {α : Type} (key : α → Nat) where
  rows : List α
  next : Nat
  nodup : (rows.map key).Nodup
  lt_next : ∀ x ∈ rows, key x < next

namespace Table

variable {α : Type} {key : α → Nat}

instance : Membership α (Table key) := ⟨fun t x => x ∈ t.rows⟩

theorem mem_def {t : Table key} {x : α} : x ∈ t ↔ x ∈ t.rows := Iff.rfl

instance decidableBAll (t : Table key) (p : α → Prop) [DecidablePred p] :
    Decidable (∀ x ∈ t, p x) :=
  inferInstanceAs (Decidable (∀ x ∈ t.rows, p x))

instance decidableBEx (t : Table key) (p : α → Prop) [DecidablePred p] :
    Decidable (∃ x ∈ t, p x) :=
  inferInstanceAs (Decidable (∃ x ∈ t.rows, p x))

theorem ext_iff {t t' : Table key} : t = t' ↔ t.rows = t'.rows ∧ t.next = t'.next := by
  constructor
  · rintro rfl; exact ⟨rfl, rfl⟩
  · rintro ⟨hr, hn⟩
    cases t; cases t'
    simp only at hr hn
    subst hr hn
    rfl

instance [DecidableEq α] : DecidableEq (Table key) := fun _ _ => decidable_of_iff' _ ext_iff

def empty : Table key where
  rows := []
  next := 0
  nodup := List.nodup_nil
  lt_next := by intro x hx; cases hx

instance : Inhabited (Table key) := ⟨empty⟩

@[simp] theorem rows_empty : (empty : Table key).rows = [] := rfl

@[simp] theorem not_mem_empty (x : α) : ¬ x ∈ (empty : Table key) := by
  rw [mem_def, rows_empty]; exact List.not_mem_nil

/-- Two rows with one key are one row. -/
theorem eq_of_key {t : Table key} {x y : α} (hx : x ∈ t) (hy : y ∈ t) (h : key x = key y) :
    x = y :=
  List.inj_on_of_nodup_map t.nodup hx hy h

/-- No row of the table has the key that comes next. -/
theorem fresh_next {t : Table key} {x : α} (hx : x ∈ t) : key x ≠ t.next :=
  Nat.ne_of_lt (t.lt_next x hx)

/-! ## Put -/

def put (t : Table key) (x : α) : Table key where
  rows := putRow key x t.rows
  next := max t.next (key x + 1)
  nodup := by
    rw [map_key_putRow]
    by_cases h : key x ∈ t.rows.map key
    · rw [if_pos h]; exact t.nodup
    · rw [if_neg h]
      refine List.nodup_append.2 ⟨t.nodup, List.nodup_singleton _, ?_⟩
      intro a ha b hb
      rw [List.mem_singleton] at hb
      subst hb
      exact fun he => h (he ▸ ha)
  lt_next := by
    intro y hy
    rcases (mem_putRow t.nodup).1 hy with rfl | ⟨hy, _⟩
    · omega
    · have := t.lt_next y hy
      omega

@[simp] theorem mem_put {t : Table key} {x z : α} :
    z ∈ t.put x ↔ z = x ∨ (z ∈ t ∧ key z ≠ key x) :=
  mem_putRow t.nodup

theorem mem_put_self (t : Table key) (x : α) : x ∈ t.put x := mem_put.2 (.inl rfl)

/-- A row put under the next key is added, and every other row stays. -/
theorem mem_put_next {t : Table key} {x z : α} (hx : key x = t.next) :
    z ∈ t.put x ↔ z = x ∨ z ∈ t := by
  rw [mem_put]
  constructor
  · rintro (h | ⟨h, _⟩)
    · exact .inl h
    · exact .inr h
  · rintro (h | h)
    · exact .inl h
    · exact .inr ⟨h, hx ▸ fresh_next h⟩

/-- A row put under the next key and then replaced: the other rows are as before. -/
theorem mem_put_put {t : Table key} {x y z : α} (hx : key x = t.next) (hy : key y = key x)
    (hz : z ≠ y) : z ∈ (t.put x).put y ↔ z ∈ t := by
  rw [mem_put, mem_put_next hx, hy, hx]
  constructor
  · rintro (rfl | ⟨rfl | hmem, hne⟩)
    · exact absurd rfl hz
    · exact absurd hx hne
    · exact hmem
  · intro hmem
    exact .inr ⟨.inr hmem, fresh_next hmem⟩

/-- A row put under the next key goes to the end. -/
theorem rows_put_next (t : Table key) {x : α} (hx : key x = t.next) :
    (t.put x).rows = t.rows ++ [x] :=
  putRow_of_not_mem fun _ hy => hx ▸ fresh_next hy

/-- Put several rows, one after the other. -/
def putAll (t : Table key) (xs : List α) : Table key := xs.foldl put t

@[simp] theorem putAll_nil (t : Table key) : t.putAll [] = t := rfl

@[simp] theorem putAll_cons (t : Table key) (x : α) (xs : List α) :
    t.putAll (x :: xs) = (t.put x).putAll xs := rfl

/-- Rows with different keys do not overwrite each other. -/
theorem mem_putAll {xs : List α} (hxs : (xs.map key).Nodup) {t : Table key} {z : α} :
    z ∈ t.putAll xs ↔ z ∈ xs ∨ (z ∈ t ∧ ∀ x ∈ xs, key z ≠ key x) := by
  induction xs generalizing t with
  | nil => simp
  | cons x xs ih =>
    rw [List.map_cons, List.nodup_cons] at hxs
    have hx : ∀ y ∈ xs, key x ≠ key y := by
      intro y hy he
      exact hxs.1 (List.mem_map.2 ⟨y, hy, he.symm⟩)
    rw [putAll_cons, ih hxs.2, mem_put, List.mem_cons]
    constructor
    · rintro (hz | ⟨rfl | ⟨hz, hne⟩, hall⟩)
      · exact .inl (.inr hz)
      · exact .inl (.inl rfl)
      · exact .inr ⟨hz, List.forall_mem_cons.2 ⟨hne, hall⟩⟩
    · rintro ((rfl | hz) | ⟨hz, hall⟩)
      · exact .inr ⟨.inl rfl, hx⟩
      · exact .inl hz
      · rw [List.forall_mem_cons] at hall
        exact .inr ⟨.inr ⟨hz, hall.1⟩, hall.2⟩

/-- A row that is not among those put stays unless one of them has its key. -/
theorem mem_putAll_of_not_mem {xs : List α} {t : Table key} {z : α} (hz : z ∉ xs) :
    z ∈ t.putAll xs ↔ z ∈ t ∧ ∀ x ∈ xs, key z ≠ key x := by
  induction xs generalizing t with
  | nil => simp
  | cons x xs ih =>
    rw [List.mem_cons, not_or] at hz
    rw [putAll_cons, ih hz.2, mem_put, or_iff_right hz.1, List.forall_mem_cons, and_assoc]

/-- A row stays when none of those put has its key. -/
theorem mem_putAll_of_ne {xs : List α} {t : Table key} {z : α} (hz : z ∈ t)
    (hne : ∀ x ∈ xs, key z ≠ key x) : z ∈ t.putAll xs :=
  (mem_putAll_of_not_mem fun hmem => hne z hmem rfl).2 ⟨hz, hne⟩

/-- Rows put over others of the table leave its keys as they are. -/
theorem putAll_keys {xs : List α} {t : Table key} (h : ∀ x ∈ xs, ∃ y ∈ t, key y = key x) :
    (t.putAll xs).rows.map key = t.rows.map key ∧ (t.putAll xs).next = t.next := by
  induction xs generalizing t with
  | nil => exact ⟨rfl, rfl⟩
  | cons x xs ih =>
    rw [List.forall_mem_cons] at h
    obtain ⟨⟨y, hy, hkey⟩, hrest⟩ := h
    have hput : (t.put x).rows.map key = t.rows.map key := by
      have hmem : key x ∈ t.rows.map key := hkey ▸ List.mem_map_of_mem hy
      exact (map_key_putRow key x t.rows).trans (if_pos hmem)
    have hnext : (t.put x).next = t.next := Nat.max_eq_left (hkey ▸ t.lt_next y hy)
    have hmem : ∀ x' ∈ xs, ∃ y' ∈ t.put x, key y' = key x' := by
      intro x' hx'
      obtain ⟨y', hy', hkey'⟩ := hrest x' hx'
      have hin : key x' ∈ (t.put x).rows.map key :=
        hput.symm ▸ hkey' ▸ List.mem_map_of_mem hy'
      exact List.mem_map.1 hin
    obtain ⟨hkeys, hall⟩ := ih hmem
    exact ⟨hkeys.trans hput, hall.trans hnext⟩

/-- Tables with the same keys in the same order, and rows of one in the other, are the same. -/
theorem eq_of_keys {t t' : Table key} (hkeys : t.rows.map key = t'.rows.map key)
    (hnext : t.next = t'.next) (hmem : ∀ x ∈ t, x ∈ t') : t = t' := by
  refine ext_iff.2 ⟨?_, hnext⟩
  have hlength : t.rows.length = t'.rows.length := by
    have := congrArg List.length hkeys
    rwa [List.length_map, List.length_map] at this
  refine List.ext_getElem hlength fun i hi hi' => ?_
  have hkey : key t.rows[i] = key t'.rows[i] := by
    have hget : (t.rows.map key)[i]? = (t'.rows.map key)[i]? := by rw [hkeys]
    simpa [hi, hi'] using hget
  exact eq_of_key (hmem _ (List.getElem_mem hi)) (List.getElem_mem hi') hkey

theorem putRow_middle {x y : α} {done rest : List α} (hdone : ∀ z ∈ done, key z ≠ key x)
    (hy : key y = key x) : putRow key x (done ++ y :: rest) = done ++ x :: rest := by
  induction done with
  | nil => rw [List.nil_append, putRow, if_pos hy, List.nil_append]
  | cons z done ih =>
    rw [List.forall_mem_cons] at hdone
    rw [List.cons_append, putRow, if_neg hdone.1, ih hdone.2, List.cons_append]

/-- Rewriting rows in place, each under its own key. -/
theorem rows_putAll_filterMap (t : Table key) (f : α → Option α)
    (hf : ∀ r r', f r = some r' → key r' = key r) :
    (t.putAll (t.rows.filterMap f)).rows = t.rows.map fun r => (f r).getD r := by
  have hall : ∀ (todo done : List α) (u : Table key), u.rows = done ++ todo →
      (u.putAll (todo.filterMap f)).rows = done ++ todo.map fun r => (f r).getD r := by
    intro todo
    induction todo with
    | nil => intro done u hu; exact hu
    | cons r todo ih =>
      intro done u hu
      rw [List.map_cons, List.filterMap_cons]
      cases hr : f r with
      | none =>
        rw [ih (done ++ [r]) u (by rw [hu, List.append_assoc, List.singleton_append]),
          List.append_assoc]
        rfl
      | some r' =>
        have hkey := hf r r' hr
        have hnd := u.nodup
        rw [hu, List.map_append, List.map_cons, List.nodup_append] at hnd
        have hput : (u.put r').rows = done ++ r' :: todo := by
          have hrows : (u.put r').rows = putRow key r' (done ++ r :: todo) :=
            congrArg (putRow key r') hu
          rw [hrows]
          refine putRow_middle (fun z hz he => ?_) hkey.symm
          exact hnd.2.2 (key z) (List.mem_map_of_mem hz) (key r) List.mem_cons_self (he.trans hkey)
        simp only [putAll_cons]
        rw [ih (done ++ [r']) (u.put r')
          (by rw [hput, List.append_assoc, List.singleton_append]), List.append_assoc]
        rfl
  exact hall t.rows [] t rfl

/-- The keys of rows a filter selects are not repeated. -/
theorem nodup_filter (t : Table key) (p : α → Bool) : ((t.rows.filter p).map key).Nodup :=
  (List.filter_sublist.map key).nodup t.nodup

theorem map_put {β : Type} {t : Table key} {view : α → β} {x y : α} (hy : y ∈ t)
    (hk : key y = key x) (hview : view y = view x) : (t.put x).rows.map view = t.rows.map view := by
  refine map_putRow ⟨y, hy, hk⟩ fun z hz hzk => ?_
  rw [eq_of_key hz hy (hzk.trans hk.symm), hview]

/-! ## Delete -/

def deleteWhere (t : Table key) (p : α → Bool) : Table key where
  rows := t.rows.filter fun x => !p x
  next := t.next
  nodup := t.nodup_filter _
  lt_next := fun x hx => t.lt_next x (List.mem_of_mem_filter hx)

@[simp] theorem mem_deleteWhere {t : Table key} {p : α → Bool} {x : α} :
    x ∈ t.deleteWhere p ↔ x ∈ t ∧ p x = false := by
  rw [mem_def, deleteWhere, List.mem_filter, Bool.not_eq_true', ← mem_def]

@[simp] theorem next_deleteWhere (t : Table key) (p : α → Bool) :
    (t.deleteWhere p).next = t.next := rfl

theorem deleteWhere_eq_self {t : Table key} {p : α → Bool} :
    t.deleteWhere p = t ↔ ∀ x ∈ t, p x = false := by
  rw [ext_iff]
  simp [deleteWhere, mem_def]

@[simp] theorem deleteWhere_none (t : Table key) : t.deleteWhere (fun _ => false) = t :=
  deleteWhere_eq_self.2 fun _ _ => rfl

theorem deleteWhere_deleteWhere (t : Table key) (p q : α → Bool) :
    (t.deleteWhere p).deleteWhere q = t.deleteWhere fun x => p x || q x := by
  rw [ext_iff]
  refine ⟨?_, rfl⟩
  simp only [deleteWhere, List.filter_filter]
  exact List.filter_congr fun x _ => by rw [Bool.not_or, Bool.and_comm]

/-! ## Update all rows -/

def mapRows (t : Table key) (f : α → α) (hf : ∀ x, key (f x) = key x) : Table key where
  rows := t.rows.map f
  next := t.next
  nodup := by
    have hkeys : key ∘ f = key := funext hf
    rw [List.map_map, hkeys]
    exact t.nodup
  lt_next := fun x hx => by
    obtain ⟨y, hy, rfl⟩ := List.mem_map.1 hx
    rw [hf]
    exact t.lt_next y hy

variable {f g : α → α} {hf : ∀ x, key (f x) = key x} {hg : ∀ x, key (g x) = key x}

theorem mapRows_id (t : Table key) (h : ∀ x, f x = x) : t.mapRows f hf = t := by
  obtain rfl : f = id := funext h
  rw [ext_iff]
  exact ⟨List.map_id _, rfl⟩

theorem mapRows_mapRows {h : α → α} {hh : ∀ x, key (h x) = key x} (t : Table key)
    (heq : ∀ x, g (f x) = h x) : (t.mapRows f hf).mapRows g hg = t.mapRows h hh := by
  obtain rfl : g ∘ f = h := funext heq
  rw [ext_iff]
  exact ⟨List.map_map, rfl⟩

/-- A delete that goes by the key finds the same rows before and after. -/
theorem deleteWhere_mapRows (t : Table key) (p : Nat → Bool) :
    (t.mapRows f hf).deleteWhere (fun x => p (key x)) =
      (t.deleteWhere fun x => p (key x)).mapRows f hf := by
  rw [ext_iff]
  refine ⟨?_, rfl⟩
  simp only [deleteWhere, mapRows, List.filter_map]
  exact congrArg (List.map f) (List.filter_congr fun x _ => by rw [Function.comp_apply, hf])

/-! ## Look up -/

def get? (t : Table key) (k : Nat) : Option α := t.rows.find? fun x => key x = k

theorem get?_eq_some {t : Table key} {k : Nat} {x : α} : t.get? k = some x ↔ x ∈ t ∧ key x = k := by
  constructor
  · intro h
    exact ⟨List.mem_of_find?_eq_some h, by simpa using List.find?_some h⟩
  · rintro ⟨hx, rfl⟩
    have hsome : (t.get? (key x)).isSome := by
      rw [get?, List.find?_isSome]; exact ⟨x, hx, by simp⟩
    obtain ⟨y, hy⟩ := Option.isSome_iff_exists.1 hsome
    have hk : key y = key x := by simpa using List.find?_some hy
    rw [hy, eq_of_key (List.mem_of_find?_eq_some hy) hx hk]

theorem get?_eq_none {t : Table key} {k : Nat} : t.get? k = none ↔ ∀ x ∈ t, key x ≠ k := by
  simp [get?, List.find?_eq_none, mem_def]

/-- A row that a delete does not select is still found. -/
theorem get?_deleteWhere {t : Table key} {p : α → Bool} {k : Nat}
    (h : ∀ x, t.get? k = some x → p x = false) : (t.deleteWhere p).get? k = t.get? k := by
  cases hg : t.get? k with
  | none =>
    rw [get?_eq_none] at hg ⊢
    exact fun z hz => hg z (mem_deleteWhere.1 hz).1
  | some y =>
    have hy := get?_eq_some.1 hg
    exact get?_eq_some.2 ⟨mem_deleteWhere.2 ⟨hy.1, h y hg⟩, hy.2⟩

theorem get?_put (t : Table key) (x : α) (k : Nat) :
    (t.put x).get? k = if k = key x then some x else t.get? k := by
  by_cases h : k = key x
  · rw [if_pos h]; exact get?_eq_some.2 ⟨mem_put_self t x, h.symm⟩
  · rw [if_neg h]
    cases hg : t.get? k with
    | none =>
      rw [get?_eq_none] at hg ⊢
      intro z hz
      rcases mem_put.1 hz with rfl | ⟨hz, _⟩
      · exact fun he => h he.symm
      · exact hg z hz
    | some y =>
      rw [get?_eq_some] at hg ⊢
      exact ⟨mem_put.2 (.inr ⟨hg.1, fun he => h (hg.2.symm.trans he)⟩), hg.2⟩

end Table
