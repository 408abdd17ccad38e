import Mathlib.Data.List.Perm.Basic
import Mathlib.Data.List.Pairwise
import Mathlib.Data.List.Sort

/-!
# Lib.Latest

Logs of values under keys, the last value of a key being the one that counts. The entries of other
keys do not matter to it, and neither does an order of time that the entries of the key were in
already.

* `latest` — the last value of a key.
* `filter_eq_of_sorted` — a reordering by time keeps what is in strict order of time.
-/

namespace Latest

section

variable {κ υ α : Type} [DecidableEq κ]

def latest (log : List (κ × υ)) (k : κ) : Option υ :=
  (log.filter fun e => e.1 = k).getLast?.map (·.2)

@[simp] theorem latest_nil (k : κ) : latest ([] : List (κ × υ)) k = none := rfl

theorem latest_append (log log' : List (κ × υ)) (k : κ) :
    latest (log ++ log') k = (latest log' k).or (latest log k) := by
  rw [latest, List.filter_append, List.getLast?_append, latest, latest]
  cases (log'.filter fun e => e.1 = k).getLast? <;> rfl

theorem latest_eq_none {log : List (κ × υ)} {k : κ} (h : ∀ e ∈ log, e.1 ≠ k) :
    latest log k = none := by
  have hnil : (log.filter fun e => e.1 = k) = [] :=
    List.filter_eq_nil_iff.2 fun e he => by simpa using h e he
  rw [latest, hnil]
  rfl

theorem exists_latest {log : List (κ × υ)} {e : κ × υ} (he : e ∈ log) :
    ∃ v, latest log e.1 = some v := by
  have hmem : e ∈ log.filter fun e' => e'.1 = e.1 := List.mem_filter.2 ⟨he, decide_eq_true rfl⟩
  have hsome := List.getLast?_isSome.2 (List.ne_nil_of_mem hmem)
  obtain ⟨last, hlast⟩ := Option.isSome_iff_exists.1 hsome
  exact ⟨last.2, congrArg (Option.map Prod.snd) hlast⟩

/-- A key that the log names once. -/
theorem latest_eq_some {log : List (κ × υ)} (hlog : (log.map Prod.fst).Nodup) {e : κ × υ}
    (he : e ∈ log) : latest log e.1 = some e.2 := by
  induction log with
  | nil => cases he
  | cons e' log ih =>
    rw [List.map_cons, List.nodup_cons] at hlog
    have hcons : latest (e' :: log) e.1 = (latest log e.1).or (latest [e'] e.1) :=
      latest_append [e'] log e.1
    rw [hcons]
    rcases List.mem_cons.1 he with rfl | he
    · have hnone : latest log e.1 = none :=
        latest_eq_none fun x hx hkey => hlog.1 (List.mem_map.2 ⟨x, hx, hkey⟩)
      rw [hnone]
      simp [latest]
    · rw [ih hlog.2 he]
      rfl

/-- Entries that come from elsewhere than the ones selected do not count. -/
theorem latest_flatMap_filter {xs : List α} {entries : α → List (κ × υ)} {p : α → Bool} {k : κ}
    (h : ∀ x ∈ xs, p x = false → ∀ e ∈ entries x, e.1 ≠ k) :
    latest ((xs.filter p).flatMap entries) k = latest (xs.flatMap entries) k := by
  induction xs with
  | nil => rfl
  | cons x xs ih =>
    rw [List.forall_mem_cons] at h
    rw [List.flatMap_cons, latest_append, ← ih h.2, List.filter_cons]
    cases hp : p x with
    | false =>
      rw [latest_eq_none (h.1 hp), Option.or_none]
      rfl
    | true =>
      rw [if_pos rfl, List.flatMap_cons, latest_append]

end

/-! ## Order of time -/

/-- Rows in strict order of time are in that order after any reordering by time. -/
theorem filter_eq_of_sorted {α : Type} {time : α → Int} {rows rows' : List α} (p : α → Bool)
    (hperm : rows'.Perm rows) (hrows : (rows.filter p).Pairwise (time · < time ·))
    (hrows' : rows'.Pairwise (time · ≤ time ·)) : rows'.filter p = rows.filter p := by
  have hne : (rows.filter p).Pairwise fun a b => time a ≠ time b :=
    hrows.imp fun hlt => ne_of_lt hlt
  have hfilter : (rows'.filter p).Perm (rows.filter p) := hperm.filter p
  refine List.Perm.eq_of_pairwise (fun a b ha hb hab hba => ?_)
    (hrows'.sublist List.filter_sublist) (hrows.imp fun hlt => Int.le_of_lt hlt) hfilter
  have hsymm : Std.Symm fun a b => time a ≠ time b := ⟨fun _ _ h => h.symm⟩
  by_contra hab'
  exact hne.forall (hfilter.subset ha) hb hab' (Int.le_antisymm hab hba)

end Latest
