import Mathlib.Data.List.TakeWhile
import Constat.Focus.Loader

/-!
# Focus.LoaderAgreement

The CSV and the Parquet loader of one table, with the provider to be detected. A file without rows
has no first row: the CSV loader then takes the default dialect, the Parquet loader keeps `auto` for
a provider and refuses it. And only the CSV reader has a limit for a field.

* `Agrees`     — both loaders do the same with each row, up to the numbers of the rows, and what they
                 would do with the detected provider named.
* `agrees_iff` — they agree exactly when there is a row and no field is over the limit.
-/

namespace Constat

namespace Focus

namespace Loader

section

variable (env : LoaderEnv)

/-- The row numbers of a CSV file count from 2. -/
def Event.fromZero : Event → Event
  | .skip n e => .skip (n - 2) e
  | .charge c => .charge c

/-- The dialect of the first row, the default one without a row. -/
def detectedProvider (t : FocusTable) : String :=
  (autoDetect ((t.rows.map (parquetRow t.columns)).head?.getD [])).providerName

/-- One event for a row: it is yielded, or it is reported under its number. -/
inductive Handles (provider : Option String) : Row × Nat → Event → Prop where
  | yielded {row : Row} {n : Nat} {c : LoadedCharge}
      (h : rowToCharge env provider row = .ok c) : Handles provider (row, n) (.charge c)
  | skipped {row : Row} {n : Nat} {e : RowError}
      (h : rowToCharge env provider row = .error e) : Handles provider (row, n) (.skip n e)

/-- Each row of the table is yielded once or reported once. -/
def Once (t : FocusTable) (first : Nat) (l : Load) : Prop :=
  List.Forall₂ (Handles env (some (detectedProvider t)))
    ((t.rows.map (parquetRow t.columns)).zipIdx first) l.events

structure Agrees (t : FocusTable) : Prop where
  events : (loadFocusCsv env (some "auto") t).events.map Event.fromZero =
    (loadFocusParquet env (some "auto") t).events
  raised : (loadFocusCsv env (some "auto") t).raised =
    (loadFocusParquet env (some "auto") t).raised
  namedCsv : loadFocusCsv env (some "auto") t = loadFocusCsv env (some (detectedProvider t)) t
  namedParquet : loadFocusParquet env (some "auto") t =
    loadFocusParquet env (some (detectedProvider t)) t
  onceCsv : Once env t 2 (loadFocusCsv env (some "auto") t)
  onceParquet : Once env t 0 (loadFocusParquet env (some "auto") t)

end

/-- No column name and no cell is over the limit of the CSV reader. -/
def Readable (t : FocusTable) : Prop :=
  t.columns.all readable = true ∧ ∀ r ∈ t.rows, (csvRecord r).all readable = true

/-! ## What both loaders share -/

theorem parquetRow_eq (columns : List String) (cells : List (Option String)) :
    parquetRow columns cells = columns.zip (csvRecord cells) := by
  have hcells : cells.map nullToEmpty = csvRecord cells :=
    List.map_congr_left fun v _ => by cases v <;> rfl
  rw [parquetRow, hcells]

theorem csvRows_of_readable {t : FocusTable} (h : Readable t) :
    csvRows t = (t.rows.map (parquetRow t.columns), none) := by
  have hall : ∀ r ∈ t.rows.map csvRecord, r.all readable = true := by
    intro r hr
    obtain ⟨cells, hcells, rfl⟩ := List.mem_map.1 hr
    exact h.2 cells hcells
  have htake : (t.rows.map csvRecord).takeWhile (fun r => r.all readable) =
      t.rows.map csvRecord := List.takeWhile_eq_self_iff.2 hall
  have hrows : (t.rows.map csvRecord).map (fun r => t.columns.zip r) =
      t.rows.map (parquetRow t.columns) := by
    rw [List.map_map]
    exact List.map_congr_left fun cells _ => (parquetRow_eq t.columns cells).symm
  simp only [csvRows, htake, hrows, List.all_eq_true.2 hall, if_true]

theorem csvRows_raised {t : FocusTable} (h : ¬ ∀ r ∈ t.rows, (csvRecord r).all readable = true) :
    (csvRows t).2 = some .csvField := by
  have hnot : ¬ ((t.rows.map csvRecord).all fun r => r.all readable) = true := by
    rw [List.all_map, List.all_eq_true]
    exact h
  simp only [csvRows, if_neg hnot]

theorem autoDetect_supported (first : Row) :
    checkProvider (some (autoDetect first).providerName) = none := by
  unfold autoDetect registry
  rw [List.foldl_cons, List.foldl_nil]
  split <;> rfl

theorem autoDetect_ne_auto (first : Row) : some (autoDetect first).providerName ≠ some "auto" := by
  unfold autoDetect registry
  rw [List.foldl_cons, List.foldl_nil]
  split <;> decide

section

variable {env : LoaderEnv} {provider : Option String}

theorem loadFrom_supported (hp : checkProvider provider = none) (n : Nat) (rows : List Row)
    (raised : Option LoaderError) :
    loadFrom env provider n rows raised = ⟨loadRows env provider n rows, raised⟩ := by
  rw [loadFrom, hp]

theorem handles_convert (n : Nat) (row : Row) :
    Handles env provider (row, n) (convert env provider n row) := by
  unfold convert
  cases h : rowToCharge env provider row with
  | ok c => exact .yielded h
  | error e => exact .skipped h

/-- The loop handles each row once. -/
theorem handles_loadRows (rows : List Row) : ∀ n : Nat,
    List.Forall₂ (Handles env provider) (rows.zipIdx n) (loadRows env provider n rows) := by
  induction rows with
  | nil => intro n; exact .nil
  | cons row rows ih => intro n; exact .cons (handles_convert n row) (ih (n + 1))

theorem fromZero_convert (n : Nat) (row : Row) :
    (convert env provider (n + 2) row).fromZero = convert env provider n row := by
  unfold convert
  cases rowToCharge env provider row <;> rfl

theorem fromZero_loadRows (rows : List Row) : ∀ n : Nat,
    (loadRows env provider (n + 2) rows).map Event.fromZero = loadRows env provider n rows := by
  induction rows with
  | nil => intro n; rfl
  | cons row rows ih =>
    intro n
    rw [loadRows, loadRows, List.map_cons, fromZero_convert, ← ih (n + 1)]

variable {t : FocusTable}

/-! ## The loaders -/

/-- The replay of the first row is the first step of the loop. -/
theorem loadFocusCsv_auto (h : Readable t) : loadFocusCsv env (some "auto") t =
    ⟨loadRows env (some (detectedProvider t)) 2 (t.rows.map (parquetRow t.columns)), none⟩ := by
  have hcolumns : ¬ t.columns.all readable = false := by simp [h.1]
  have hvalid : ¬ validColumns t.columns = false := by simp [t.valid]
  simp only [loadFocusCsv, if_neg hcolumns, if_neg hvalid, csvRows_of_readable h, if_true,
    detectedProvider]
  cases hrows : t.rows.map (parquetRow t.columns) with
  | nil => exact loadFrom_supported (autoDetect_supported _) 3 [] none
  | cons first rows =>
    simp only [List.head?_cons, Option.getD_some,
      loadFrom_supported (autoDetect_supported first)]
    rfl

theorem loadFocusCsv_named (h : Readable t) (hp : checkProvider provider = none)
    (hauto : provider ≠ some "auto") : loadFocusCsv env provider t =
      ⟨loadRows env provider 2 (t.rows.map (parquetRow t.columns)), none⟩ := by
  have hcolumns : ¬ t.columns.all readable = false := by simp [h.1]
  have hvalid : ¬ validColumns t.columns = false := by simp [t.valid]
  simp only [loadFocusCsv, if_neg hcolumns, if_neg hvalid, csvRows_of_readable h, if_neg hauto]
  exact loadFrom_supported hp 2 _ none

theorem loadFocusParquet_named (hp : checkProvider provider = none)
    (hauto : provider ≠ some "auto") : loadFocusParquet env provider t =
      ⟨loadRows env provider 0 (t.rows.map (parquetRow t.columns)), none⟩ := by
  have hvalid : ¬ validColumns t.columns = false := by simp [t.valid]
  simp only [loadFocusParquet, if_neg hvalid, if_neg hauto]
  exact loadFrom_supported hp 0 _ none

theorem loadFocusParquet_auto (hrows : t.rows ≠ []) : loadFocusParquet env (some "auto") t =
    ⟨loadRows env (some (detectedProvider t)) 0 (t.rows.map (parquetRow t.columns)), none⟩ := by
  have hvalid : ¬ validColumns t.columns = false := by simp [t.valid]
  simp only [loadFocusParquet, if_neg hvalid, if_true, detectedProvider]
  cases hmap : t.rows.map (parquetRow t.columns) with
  | nil => exact absurd (List.map_eq_nil_iff.1 hmap) hrows
  | cons first rows => exact loadFrom_supported (autoDetect_supported _) 0 _ none

/-- Without a row there is nothing to detect, and `auto` is no provider. -/
theorem loadFocusParquet_empty (hrows : t.rows = []) :
    loadFocusParquet env (some "auto") t = ⟨[], some (.unknownProvider "auto")⟩ := by
  have hvalid : ¬ validColumns t.columns = false := by simp [t.valid]
  simp only [loadFocusParquet, if_neg hvalid, if_true, hrows, List.map_nil]
  rfl

/-- The reader's refusal leaves the CSV loader. -/
theorem loadFocusCsv_raised (h : ¬ Readable t) :
    (loadFocusCsv env (some "auto") t).raised = some .csvField := by
  have hvalid : ¬ validColumns t.columns = false := by simp [t.valid]
  by_cases hcolumns : t.columns.all readable = true
  · have hrows : (csvRows t).2 = some .csvField :=
      csvRows_raised fun hall => h ⟨hcolumns, hall⟩
    have hcolumns' : ¬ t.columns.all readable = false := by simp [hcolumns]
    simp only [loadFocusCsv, if_neg hcolumns', if_neg hvalid, if_true, hrows]
    split
    · rename_i e _ he
      rw [← Option.some.inj he]
    · rename_i he
      cases he
    · simp only [loadFrom_supported (autoDetect_supported _)]
  · rw [loadFocusCsv, if_pos (by simpa using hcolumns)]

theorem agrees_of_readable (hrows : t.rows ≠ []) (h : Readable t) : Agrees env t := by
  have hcsv := @loadFocusCsv_auto env t h
  have hparquet := @loadFocusParquet_auto env t hrows
  have hp : checkProvider (some (detectedProvider t)) = none := autoDetect_supported _
  have hauto : some (detectedProvider t) ≠ some "auto" := autoDetect_ne_auto _
  constructor
  · rw [hcsv, hparquet]
    exact fromZero_loadRows _ 0
  · rw [hcsv, hparquet]
  · rw [hcsv, loadFocusCsv_named h hp hauto]
  · rw [hparquet, loadFocusParquet_named hp hauto]
  · rw [hcsv]
    exact handles_loadRows _ 2
  · rw [hparquet]
    exact handles_loadRows _ 0

end

theorem agrees_iff (env : LoaderEnv) (t : FocusTable) :
    Agrees env t ↔ t.rows ≠ [] ∧ Readable t := by
  constructor
  · intro h
    have hrows : t.rows ≠ [] := by
      intro hempty
      have hnamed := h.namedParquet
      have hp : checkProvider (some (detectedProvider t)) = none := autoDetect_supported _
      have hauto : some (detectedProvider t) ≠ some "auto" := autoDetect_ne_auto _
      rw [loadFocusParquet_empty hempty, loadFocusParquet_named hp hauto] at hnamed
      cases (Load.mk.inj hnamed).2
    refine ⟨hrows, ?_⟩
    by_contra hread
    have hraised := h.raised
    rw [loadFocusCsv_raised hread, loadFocusParquet_auto hrows] at hraised
    cases hraised
  · exact fun h => agrees_of_readable h.1 h.2

/-- A catalog without services. -/
def plainEnv : LoaderEnv := ⟨100, id, ⟨.empty, by simp [Dict.empty]⟩⟩

theorem nodup_requiredColumns : ("RegionId" :: requiredColumns).Nodup := by decide

theorem valid_requiredColumns : validColumns ("RegionId" :: requiredColumns) = true := by decide

/-- A file with a header and nothing else. -/
def headerOnly : FocusTable where
  columns := "RegionId" :: requiredColumns
  rows := []
  nodup := nodup_requiredColumns
  width := by simp
  valid := valid_requiredColumns

/-- An empty CSV file loads, an empty Parquet file does not. -/
theorem headerOnly_refused : ¬ Agrees plainEnv headerOnly ∧
    loadFocusCsv plainEnv (some "auto") headerOnly = ⟨[], none⟩ ∧
    loadFocusParquet plainEnv (some "auto") headerOnly =
      ⟨[], some (.unknownProvider "auto")⟩ := by
  have hparquet : loadFocusParquet plainEnv (some "auto") headerOnly =
      ⟨[], some (.unknownProvider "auto")⟩ := loadFocusParquet_empty rfl
  have hcsv : loadFocusCsv plainEnv (some "auto") headerOnly = ⟨[], none⟩ := by decide +kernel
  refine ⟨fun h => ?_, hcsv, hparquet⟩
  have hraised := h.raised
  rw [hcsv, hparquet] at hraised
  cases hraised

end Loader

end Focus

end Constat
