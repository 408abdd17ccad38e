import Constat.Lib.Simulation
import Constat.Orm

/-!
# Tenancy

How the tenants share one database: the policies of `0007_rls_policies.sql`, the tenant id that
`tenant.py` installs when a transaction begins, and the pool of connections the sessions of the
process draw from.

* `Guc`      — `current_setting('app.current_tenant_id', true)` on one connection.
* `execute`  — one statement under the policies; `step` one event of a session.
* `Private`  — what the policies are for: a database of its own for every tenant.
* `Refines`  — the shared rows cut by tenant are the private tables, and every open transaction is
  on a connection that carries its own tenant, if it has one, and nobody else's.

Transactions overlap in any order and see what the others have committed. Row locks are left out,
so more orders are allowed than the server allows.
-/

namespace Constat

namespace Tenancy

open Simulation

section

variable {α : Type}

/-! ## Rows and statements -/

structure Row (α : Type) where
  tenantId : Uuid
  id : Uuid
  body : α

/-- The columns of a row other than the tenant. -/
def Row.cells (r : Row α) : Uuid × α := (r.id, r.body)

/-- An `insert` without a tenant is stamped by `tenant_or_default`. -/
inductive Statement (α : Type) where
  | select (p : Uuid × α → Bool)
  | insert (tenantId : Option Uuid) (id : Uuid) (body : α)
  | update (p : Uuid × α → Bool) (f : α → α)
  | delete (p : Uuid × α → Bool)

inductive Answer (α : Type) where
  | rows (rs : List (Uuid × α))
  | count (n : Nat)
  | refused
  | done

/-- A write of an open transaction, to the rows it found. -/
inductive Write (α : Type) where
  | insert (row : Row α)
  | update (tenantId id : Uuid) (body : α)
  | delete (tenantId id : Uuid)

def applyWrite (rows : List (Row α)) : Write α → List (Row α)
  | .insert row => rows ++ [row]
  | .update tenantId id body =>
    rows.map fun r => if r.tenantId = tenantId ∧ r.id = id then { r with body := body } else r
  | .delete tenantId id => rows.filter fun r => !decide (r.tenantId = tenantId ∧ r.id = id)

/-! ## The tenant of a connection -/

inductive Guc where
  | unset
  | blank
  | tenant (t : Uuid)

/-- `current_setting(...)::uuid`: the cast of `''` is an error. -/
def Guc.uuid : Guc → Option (Option Uuid)
  | .unset => some none
  | .blank => none
  | .tenant t => some (some t)

/-- `SET LOCAL` ends with its transaction and leaves the empty string. -/
def Guc.ended : Guc → Guc
  | .unset => .unset
  | _ => .blank

/-- `_apply_tenant_guc`, after_begin. -/
def applyTenantGuc (tenantId : Option Uuid) (guc : Guc) : Guc :=
  match tenantId with
  | none => guc
  | some t => .tenant t

structure Transaction (α : Type) where
  connection : Nat
  writes : List (Write α)
  failed : Bool

/-- `tenantId` is `session.info["tenant_id"]`. -/
structure Session (α : Type) where
  tenantId : Option Uuid
  transaction : Option (Transaction α)

def tenantOrDefault (tenantId : Option Uuid) : Uuid := tenantId.getD defaultTenantId

structure Server (α : Type) where
  rows : List (Row α)
  gucs : Nat → Guc
  opened : Nat
  idle : List Nat
  sessions : Nat → Session α

def start (rows : List (Row α)) : Server α :=
  ⟨rows, fun _ => .unset, 0, [], fun _ => ⟨none, none⟩⟩

def Transaction.fail (tx : Transaction α) : Transaction α := { tx with failed := true }

def Transaction.write (tx : Transaction α) (ws : List (Write α)) : Transaction α :=
  { tx with writes := tx.writes ++ ws }

/-- USING filters what the statement sees, WITH CHECK what it inserts. An UPDATE keeps the tenant
of the row, so its check is the filter. -/
def execute (rows : List (Row α)) (guc : Guc) (stamp : Uuid) (tx : Transaction α)
    (st : Statement α) : Transaction α × Answer α :=
  if tx.failed then (tx, .refused)
  else
    match guc.uuid with
    | none => (tx.fail, .refused)
    | some current =>
      let visible := (tx.writes.foldl applyWrite rows).filter fun r => current = some r.tenantId
      match st with
      | .select p => (tx, .rows ((visible.filter fun r => p r.cells).map Row.cells))
      | .insert tenantId id body =>
        if current = some (tenantId.getD stamp) then
          (tx.write [.insert ⟨tenantId.getD stamp, id, body⟩], .count 1)
        else (tx.fail, .refused)
      | .update p f =>
        let hit := visible.filter fun r => p r.cells
        (tx.write (hit.map fun r => .update r.tenantId r.id (f r.body)), .count hit.length)
      | .delete p =>
        let hit := visible.filter fun r => p r.cells
        (tx.write (hit.map fun r => .delete r.tenantId r.id), .count hit.length)

/-! ## Sessions and the pool -/

/-- A session takes an idle connection of the pool, or opens one. -/
def checkout (srv : Server α) (choice : Nat) : Nat × Server α :=
  match srv.idle[choice]? with
  | some c => (c, { srv with idle := srv.idle.eraseIdx choice })
  | none => (srv.opened, { srv with opened := srv.opened + 1 })

def Server.setSession (srv : Server α) (sid : Nat) (s : Session α) : Server α :=
  { srv with sessions := Function.update srv.sessions sid s }

def Server.setGuc (srv : Server α) (c : Nat) (guc : Guc) : Server α :=
  { srv with gucs := Function.update srv.gucs c guc }

/-- The transaction of a session, begun by its first statement. -/
def begin (srv : Server α) (sid choice : Nat) : Transaction α × Server α :=
  let session := srv.sessions sid
  match session.transaction with
  | some tx => (tx, srv)
  | none =>
    let (c, srv) := checkout srv choice
    let tx : Transaction α := ⟨c, [], false⟩
    (tx, (srv.setGuc c (applyTenantGuc session.tenantId (srv.gucs c))).setSession sid
      ⟨session.tenantId, some tx⟩)

/-- The connection goes back to the pool, without its tenant. -/
def release (srv : Server α) (sid : Nat) (tx : Transaction α) : Server α :=
  let srv := (srv.setGuc tx.connection (srv.gucs tx.connection).ended).setSession sid
    ⟨(srv.sessions sid).tenantId, none⟩
  { srv with idle := srv.idle ++ [tx.connection] }

/-- `rollback` is `close` too. `recycle` is the pool closing an idle connection. -/
inductive Event (α : Type) where
  | bind (sid : Nat) (tenantId : Option Uuid)
  | execute (sid choice : Nat) (st : Statement α)
  | commit (sid : Nat)
  | rollback (sid : Nat)
  | recycle (choice : Nat)

def step (srv : Server α) : Event α → Server α × Answer α
  | .bind sid tenantId => (srv.setSession sid ⟨tenantId, (srv.sessions sid).transaction⟩, .done)
  | .execute sid choice st =>
    let (tx, srv) := begin srv sid choice
    let tenantId := (srv.sessions sid).tenantId
    let (tx, answer) := execute srv.rows (srv.gucs tx.connection) (tenantOrDefault tenantId) tx st
    (srv.setSession sid ⟨tenantId, some tx⟩, answer)
  | .commit sid =>
    match (srv.sessions sid).transaction with
    | none => (srv, .done)
    | some tx =>
      -- COMMIT of a failed transaction rolls it back.
      let rows := if tx.failed then srv.rows else tx.writes.foldl applyWrite srv.rows
      (release { srv with rows := rows } sid tx, .done)
  | .rollback sid =>
    match (srv.sessions sid).transaction with
    | none => (srv, .done)
    | some tx => (release srv sid tx, .done)
  | .recycle choice => ({ srv with idle := srv.idle.eraseIdx choice }, .done)

/-! ## A database for every tenant -/

namespace Private

inductive Change (α : Type) where
  | insert (id : Uuid) (body : α)
  | update (id : Uuid) (body : α)
  | delete (id : Uuid)

def applyChange (table : List (Uuid × α)) : Change α → List (Uuid × α)
  | .insert id body => table ++ [(id, body)]
  | .update id body => table.map fun r => if r.1 = id then (r.1, body) else r
  | .delete id => table.filter fun r => !decide (r.1 = id)

/-- A transaction on the database of the tenant the session was bound to when it began. -/
structure Transaction (α : Type) where
  tenantId : Option Uuid
  changes : List (Change α)
  failed : Bool

structure Session (α : Type) where
  tenantId : Option Uuid
  transaction : Option (Transaction α)

structure Databases (α : Type) where
  tables : Uuid → List (Uuid × α)
  sessions : Nat → Session α

def start (tables : Uuid → List (Uuid × α)) : Databases α := ⟨tables, fun _ => ⟨none, none⟩⟩

/-- The answer, or for a transaction without a tenant what it may be besides a refusal. -/
inductive Outcome (α : Type) where
  | exactly (a : Answer α)
  | atMost (a : Answer α)

def Outcome.Permits : Outcome α → Answer α → Prop
  | .exactly a, b => b = a
  | .atMost a, b => b = a ∨ b = .refused

def Transaction.fail (tx : Transaction α) : Transaction α := { tx with failed := true }

def Transaction.change (tx : Transaction α) (cs : List (Change α)) : Transaction α :=
  { tx with changes := tx.changes ++ cs }

/-- Without a tenant there is no row to see and no row may be inserted. -/
def executeUnbound (tx : Transaction α) : Statement α → Transaction α × Answer α
  | .select _ => (tx, .rows [])
  | .insert _ _ _ => (tx.fail, .refused)
  | .update _ _ => (tx, .count 0)
  | .delete _ => (tx, .count 0)

def executeIn (t : Uuid) (table : List (Uuid × α)) (stamp : Uuid) (tx : Transaction α) :
    Statement α → Transaction α × Answer α
  | .select p => (tx, .rows (table.filter p))
  | .insert tenantId id body =>
    if t = tenantId.getD stamp then (tx.change [.insert id body], .count 1)
    else (tx.fail, .refused)
  | .update p f =>
    (tx.change ((table.filter p).map fun r => .update r.1 (f r.2)), .count (table.filter p).length)
  | .delete p =>
    (tx.change ((table.filter p).map fun r => .delete r.1), .count (table.filter p).length)

def execute (tables : Uuid → List (Uuid × α)) (stamp : Uuid) (tx : Transaction α)
    (st : Statement α) : Transaction α × Outcome α :=
  match tx.tenantId with
  | none =>
    if tx.failed then (tx, .exactly .refused)
    else ((executeUnbound tx st).1, .atMost (executeUnbound tx st).2)
  | some t =>
    if tx.failed then (tx, .exactly .refused)
    else
      let table := tx.changes.foldl applyChange (tables t)
      ((executeIn t table stamp tx st).1, .exactly (executeIn t table stamp tx st).2)

def Databases.setSession (db : Databases α) (sid : Nat) (s : Session α) : Databases α :=
  { db with sessions := Function.update db.sessions sid s }

/-- The changes of a transaction reach the one database it is on. -/
def store (tables : Uuid → List (Uuid × α)) (tx : Transaction α) : Uuid → List (Uuid × α) :=
  match tx.tenantId with
  | none => tables
  | some t => Function.update tables t (tx.changes.foldl applyChange (tables t))

def step (db : Databases α) : Event α → Databases α × Outcome α
  | .bind sid tenantId =>
    (db.setSession sid ⟨tenantId, (db.sessions sid).transaction⟩, .exactly .done)
  | .execute sid _ st =>
    let session := db.sessions sid
    let tx := session.transaction.getD ⟨session.tenantId, [], false⟩
    let (tx, outcome) := execute db.tables (tenantOrDefault session.tenantId) tx st
    (db.setSession sid ⟨session.tenantId, some tx⟩, outcome)
  | .commit sid =>
    match (db.sessions sid).transaction with
    | none => (db, .exactly .done)
    | some tx =>
      let tables := if tx.failed then db.tables else store db.tables tx
      (({ db with tables := tables } : Databases α).setSession sid
        ⟨(db.sessions sid).tenantId, none⟩, .exactly .done)
  | .rollback sid =>
    match (db.sessions sid).transaction with
    | none => (db, .exactly .done)
    | some _ => (db.setSession sid ⟨(db.sessions sid).tenantId, none⟩, .exactly .done)
  | .recycle _ => (db, .exactly .done)

end Private

open Private (Change Databases applyChange)

/-! ## Rows cut by tenant -/

def own (t : Uuid) (rows : List (Row α)) : List (Uuid × α) :=
  (rows.filter fun r => some t = some r.tenantId).map Row.cells

/-- The write that a change of one tenant's table is on the shared rows. -/
def writeOf (t : Uuid) : Change α → Write α
  | .insert id body => .insert ⟨t, id, body⟩
  | .update id body => .update t id body
  | .delete id => .delete t id

theorem own_insert (t : Uuid) (rows : List (Row α)) (r : Row α) :
    own t (rows ++ [r]) = own t rows ++ if t = r.tenantId then [r.cells] else [] := by
  by_cases h : t = r.tenantId
  · simp [own, h]
  · simp [own, h]

theorem own_update (t s : Uuid) (id : Uuid) (body : α) (rows : List (Row α)) :
    own t (applyWrite rows (.update s id body)) =
      (own t rows).map fun c => if t = s ∧ c.1 = id then (c.1, body) else c := by
  simp only [applyWrite, own, List.filter_map, List.map_map]
  rw [List.filter_congr (q := fun r => decide (some t = some r.tenantId))]
  · apply List.map_congr_left
    intro r hr
    have ht : t = r.tenantId := by simpa using (List.mem_filter.1 hr).2
    by_cases hkey : r.tenantId = s ∧ r.id = id
    · simp [Row.cells, hkey, ht]
    · have hno : ¬ (t = s ∧ r.id = id) := by rwa [ht]
      simp [Row.cells, hkey, hno]
  · intro r _
    simp only [Function.comp]
    split <;> rfl

theorem own_delete (t s : Uuid) (id : Uuid) (rows : List (Row α)) :
    own t (applyWrite rows (.delete s id)) =
      (own t rows).filter fun c => !decide (t = s ∧ c.1 = id) := by
  simp only [applyWrite, own, List.filter_map, List.filter_filter]
  congr 1
  apply List.filter_congr
  intro r _
  by_cases ht : t = r.tenantId
  · simp only [← ht, Row.cells, Function.comp, decide_true, Bool.and_true, Bool.true_and]
    congr
  · simp [ht]

theorem own_applyWrite (t : Uuid) (rows : List (Row α)) (c : Change α) :
    own t (applyWrite rows (writeOf t c)) = applyChange (own t rows) c := by
  cases c with
  | insert id body => simp [writeOf, applyWrite, own_insert, applyChange, Row.cells]
  | update id body => simp [writeOf, own_update, applyChange]
  | delete id => simp [writeOf, own_delete, applyChange]

theorem own_applyWrite_other {t s : Uuid} (h : s ≠ t) (rows : List (Row α)) (c : Change α) :
    own s (applyWrite rows (writeOf t c)) = own s rows := by
  cases c with
  | insert id body => simp [writeOf, applyWrite, own_insert, h]
  | update id body => simp [writeOf, own_update, h]
  | delete id => simp [writeOf, own_delete, h]

/-- Induction on the writes of the transaction. -/
theorem own_foldl (t : Uuid) (cs : List (Change α)) :
    ∀ rows : List (Row α), own t ((cs.map (writeOf t)).foldl applyWrite rows) =
      cs.foldl applyChange (own t rows) := by
  induction cs with
  | nil => exact fun _ => rfl
  | cons c cs ih =>
    intro rows
    simp only [List.map_cons, List.foldl_cons, ih, own_applyWrite]

theorem own_foldl_other {t s : Uuid} (h : s ≠ t) (cs : List (Change α)) :
    ∀ rows : List (Row α), own s ((cs.map (writeOf t)).foldl applyWrite rows) = own s rows := by
  induction cs with
  | nil => exact fun _ => rfl
  | cons c cs ih =>
    intro rows
    simp only [List.map_cons, List.foldl_cons, ih, own_applyWrite_other h]

theorem hit_cells (t : Uuid) (rows : List (Row α)) (p : Uuid × α → Bool) :
    ((rows.filter fun r => some t = some r.tenantId).filter fun r => p r.cells).map Row.cells =
      (own t rows).filter p := by
  rw [own, List.filter_map]
  rfl

/-- The writes to the rows a statement hits are the changes of the rows it hits in the table. -/
theorem hit_writes (t : Uuid) (rows : List (Row α)) (p : Uuid × α → Bool)
    (write : Row α → Write α) (change : Uuid × α → Change α)
    (h : ∀ r : Row α, r.tenantId = t → write r = writeOf t (change r.cells)) :
    ((rows.filter fun r => some t = some r.tenantId).filter fun r => p r.cells).map write =
      (((own t rows).filter p).map change).map (writeOf t) := by
  rw [← hit_cells, List.map_map, List.map_map]
  apply List.map_congr_left
  intro r hr
  have hown := (List.mem_filter.1 (List.mem_filter.1 hr).1).2
  have ht : t = r.tenantId := by simpa using hown
  exact h r ht.symm

theorem hit_length (t : Uuid) (rows : List (Row α)) (p : Uuid × α → Bool) :
    ((rows.filter fun r => some t = some r.tenantId).filter fun r => p r.cells).length =
      ((own t rows).filter p).length := by
  rw [← hit_cells, List.length_map]

/-! ## One statement -/

def Guc.Clean (guc : Guc) : Prop := ∀ t, guc ≠ .tenant t

/-- A transaction of the server and the private one it stands for. -/
inductive OpenRefines (gucs : Nat → Guc) :
    Transaction α → Private.Transaction α → Prop where
  | bound {c : Nat} {t : Uuid} (cs : List (Change α)) (failed : Bool) (h : gucs c = .tenant t) :
    OpenRefines gucs ⟨c, cs.map (writeOf t), failed⟩ ⟨some t, cs, failed⟩
  | unbound {c : Nat} {failed failed' : Bool} (h : (gucs c).Clean) (hf : failed' → failed) :
    OpenRefines gucs ⟨c, [], failed⟩ ⟨none, [], failed'⟩

theorem OpenRefines.congr {gucs gucs' : Nat → Guc} {tx : Transaction α}
    {ptx : Private.Transaction α} (h : OpenRefines gucs tx ptx)
    (hc : gucs' tx.connection = gucs tx.connection) : OpenRefines gucs' tx ptx := by
  cases h with
  | bound cs failed hguc => exact .bound cs failed (hc.trans hguc)
  | unbound hclean hf => exact .unbound (by rw [show gucs' _ = _ from hc]; exact hclean) hf

theorem execute_connection (rows : List (Row α)) (guc : Guc) (stamp : Uuid) (tx : Transaction α)
    (st : Statement α) : (execute rows guc stamp tx st).1.connection = tx.connection := by
  unfold execute
  split
  · rfl
  · split
    · rfl
    · cases st with
      | insert tenantId id body =>
        simp only
        split <;> rfl
      | _ => rfl

theorem bound_executes {gucs : Nat → Guc} {c : Nat} {t : Uuid} (hguc : gucs c = .tenant t)
    {rows : List (Row α)} {tables : Uuid → List (Uuid × α)} (hrows : own t rows = tables t)
    (cs : List (Change α)) (failed : Bool) (stamp : Uuid) (st : Statement α) :
    OpenRefines gucs (execute rows (gucs c) stamp ⟨c, cs.map (writeOf t), failed⟩ st).1
        (Private.execute tables stamp ⟨some t, cs, failed⟩ st).1 ∧
      (Private.execute tables stamp ⟨some t, cs, failed⟩ st).2.Permits
        (execute rows (gucs c) stamp ⟨c, cs.map (writeOf t), failed⟩ st).2 := by
  cases failed with
  | true => exact ⟨.bound cs true hguc, rfl⟩
  | false =>
    have htable := own_foldl t cs rows
    rw [hrows] at htable
    rw [hguc]
    simp only [execute, Guc.uuid, Private.execute, Bool.false_eq_true, if_false]
    rw [← htable]
    cases st with
    | select p =>
      refine ⟨.bound cs false hguc, ?_⟩
      simp only [Private.executeIn, Private.Outcome.Permits, hit_cells]
    | insert tenantId id body =>
      by_cases hstamp : t = tenantId.getD stamp
      · simp only [Private.executeIn, ← hstamp, if_true]
        have h := OpenRefines.bound (cs ++ [.insert id body]) false hguc
        rw [List.map_append] at h
        exact ⟨h, rfl⟩
      · simp only [Private.executeIn, hstamp, if_false, Option.some.injEq]
        exact ⟨.bound cs true hguc, rfl⟩
    | update p f =>
      have hwrites := hit_writes t ((cs.map (writeOf t)).foldl applyWrite rows) p
        (fun r => .update r.tenantId r.id (f r.body)) (fun r => .update r.1 (f r.2))
        (fun r hr => by rw [hr]; rfl)
      simp only [Private.executeIn, Private.Outcome.Permits, hit_length, hwrites,
        Transaction.write, Private.Transaction.change, ← List.map_append]
      exact ⟨.bound _ false hguc, trivial⟩
    | delete p =>
      have hwrites := hit_writes t ((cs.map (writeOf t)).foldl applyWrite rows) p
        (fun r => .delete r.tenantId r.id) (fun r => .delete r.1) (fun r hr => by rw [hr]; rfl)
      simp only [Private.executeIn, Private.Outcome.Permits, hit_length, hwrites,
        Transaction.write, Private.Transaction.change, ← List.map_append]
      exact ⟨.bound _ false hguc, trivial⟩

theorem unbound_executes {gucs : Nat → Guc} {c : Nat} (hclean : (gucs c).Clean)
    {failed failed' : Bool} (hf : failed' → failed) (rows : List (Row α))
    (tables : Uuid → List (Uuid × α)) (stamp : Uuid) (st : Statement α) :
    OpenRefines gucs (execute rows (gucs c) stamp ⟨c, [], failed⟩ st).1
        (Private.execute tables stamp ⟨none, [], failed'⟩ st).1 ∧
      (Private.execute tables stamp ⟨none, [], failed'⟩ st).2.Permits
        (execute rows (gucs c) stamp ⟨c, [], failed⟩ st).2 := by
  cases failed' with
  | true =>
    obtain rfl : failed = true := hf rfl
    exact ⟨.unbound hclean hf, rfl⟩
  | false =>
    have hfail : OpenRefines gucs (⟨c, [], true⟩ : Transaction α)
        (Private.executeUnbound ⟨none, [], false⟩ st).1 := by
      cases st <;> exact .unbound hclean (fun _ => rfl)
    cases failed with
    | true => exact ⟨hfail, .inr rfl⟩
    | false =>
      cases hguc : gucs c with
      | tenant t => exact absurd hguc (hclean t)
      -- The cast of '' fails the statement, and with it the transaction.
      | blank => exact ⟨hfail, .inr rfl⟩
      | unset =>
        have hvisible : rows.filter (fun r => decide ((none : Option Uuid) = some r.tenantId)) =
            [] := List.filter_eq_nil_iff.2 fun r _ => by simp
        simp only [execute, Private.execute, Guc.uuid, Bool.false_eq_true, if_false,
          List.foldl_nil, hvisible]
        cases st with
        | insert tenantId id body => exact ⟨.unbound hclean (fun _ => rfl), .inl rfl⟩
        | _ => exact ⟨.unbound hclean (fun h => h), .inl rfl⟩

/-! ## Sessions -/

@[simp] theorem setSession_self (srv : Server α) (sid : Nat) (s : Session α) :
    (srv.setSession sid s).sessions sid = s := Function.update_self _ _ _

@[simp] theorem setSession_other {sid sid' : Nat} (h : sid' ≠ sid) (srv : Server α)
    (s : Session α) : (srv.setSession sid s).sessions sid' = srv.sessions sid' :=
  Function.update_of_ne h _ _

@[simp] theorem Private.setSession_self (db : Databases α) (sid : Nat) (s : Private.Session α) :
    (db.setSession sid s).sessions sid = s := Function.update_self _ _ _

@[simp] theorem Private.setSession_other {sid sid' : Nat} (h : sid' ≠ sid) (db : Databases α)
    (s : Private.Session α) : (db.setSession sid s).sessions sid' = db.sessions sid' :=
  Function.update_of_ne h _ _

theorem release_self (srv : Server α) (sid : Nat) (tx : Transaction α) :
    (release srv sid tx).sessions sid = ⟨(srv.sessions sid).tenantId, none⟩ :=
  setSession_self _ _ _

theorem release_other {sid sid' : Nat} (h : sid' ≠ sid) (srv : Server α) (tx : Transaction α) :
    (release srv sid tx).sessions sid' = srv.sessions sid' := setSession_other h _ _

/-- What the pool keeps: every connection is idle, without a tenant, or held by one transaction. -/
structure Pooled (srv : Server α) : Prop where
  fresh : ∀ c, srv.opened ≤ c → srv.gucs c = .unset
  idle : ∀ c ∈ srv.idle, c < srv.opened ∧ (srv.gucs c).Clean
  nodup : srv.idle.Nodup
  held : ∀ sid tx, (srv.sessions sid).transaction = some tx →
    tx.connection < srv.opened ∧ tx.connection ∉ srv.idle
  apart : ∀ sid sid' tx tx', (srv.sessions sid).transaction = some tx →
    (srv.sessions sid').transaction = some tx' → tx.connection = tx'.connection → sid = sid'

structure Refines (srv : Server α) (db : Databases α) : Prop extends Pooled srv where
  rows : ∀ t, own t srv.rows = db.tables t
  tenantId : ∀ sid, (srv.sessions sid).tenantId = (db.sessions sid).tenantId
  transaction : ∀ sid, Option.Rel (OpenRefines srv.gucs) (srv.sessions sid).transaction
    (db.sessions sid).transaction

theorem Clean.ended (guc : Guc) : guc.ended.Clean := by
  intro t
  cases guc <;> simp [Guc.ended]

theorem start_refines (rows : List (Row α)) :
    Refines (start rows) (Private.start fun t => own t rows) where
  fresh _ _ := rfl
  idle := by simp [start]
  nodup := List.nodup_nil
  held := by simp [start]
  apart := by simp [start]
  rows _ := rfl
  tenantId _ := rfl
  transaction _ := .none

theorem Pooled.setSession {srv : Server α} (h : Pooled srv) {sid : Nat} {s : Session α}
    (hs : ∀ tx', s.transaction = some tx' →
      ∃ tx, (srv.sessions sid).transaction = some tx ∧ tx.connection = tx'.connection) :
    Pooled (srv.setSession sid s) := by
  have hold : ∀ sid' tx', ((srv.setSession sid s).sessions sid').transaction = some tx' →
      ∃ tx, (srv.sessions sid').transaction = some tx ∧ tx.connection = tx'.connection := by
    intro sid' tx' htx'
    by_cases hsid : sid' = sid
    · subst hsid
      rw [setSession_self] at htx'
      exact hs tx' htx'
    · rw [setSession_other hsid] at htx'
      exact ⟨tx', htx', rfl⟩
  refine ⟨h.fresh, h.idle, h.nodup, ?held, ?apart⟩
  case held =>
    intro sid' tx' htx'
    obtain ⟨tx, htx, hc⟩ := hold sid' tx' htx'
    exact hc ▸ h.held sid' tx htx
  case apart =>
    intro sid₁ sid₂ tx₁' tx₂' h₁' h₂' hc
    obtain ⟨tx₁, h₁, hc₁⟩ := hold sid₁ tx₁' h₁'
    obtain ⟨tx₂, h₂, hc₂⟩ := hold sid₂ tx₂' h₂'
    exact h.apart sid₁ sid₂ tx₁ tx₂ h₁ h₂ (hc₁.trans (hc.trans hc₂.symm))

/-- A session that keeps its connection, or opens no transaction. -/
theorem Refines.setSession {srv : Server α} {db : Databases α} (h : Refines srv db) (sid : Nat)
    (tenantId : Option Uuid) {tx : Option (Transaction α)} {ptx : Option (Private.Transaction α)}
    (hs : ∀ tx', tx = some tx' →
      ∃ tx, (srv.sessions sid).transaction = some tx ∧ tx.connection = tx'.connection)
    (htx : Option.Rel (OpenRefines srv.gucs) tx ptx) :
    Refines (srv.setSession sid ⟨tenantId, tx⟩) (db.setSession sid ⟨tenantId, ptx⟩) := by
  refine ⟨h.toPooled.setSession hs, h.rows, ?tenantId, ?transaction⟩
  case tenantId =>
    intro sid'
    by_cases hsid : sid' = sid
    · subst hsid
      rw [setSession_self, Private.setSession_self]
    · rw [setSession_other hsid, Private.setSession_other hsid]
      exact h.tenantId sid'
  case transaction =>
    intro sid'
    by_cases hsid : sid' = sid
    · subst hsid
      rw [setSession_self, Private.setSession_self]
      exact htx
    · rw [setSession_other hsid, Private.setSession_other hsid]
      exact h.transaction sid'

theorem Refines.release {srv : Server α} {db : Databases α} (h : Refines srv db) {sid : Nat}
    {tx : Transaction α} (hopen : (srv.sessions sid).transaction = some tx)
    {rows : List (Row α)} {tables : Uuid → List (Uuid × α)} (hrows : ∀ t, own t rows = tables t) :
    Refines (Tenancy.release { srv with rows := rows } sid tx)
      (({ db with tables := tables } : Databases α).setSession sid
        ⟨(db.sessions sid).tenantId, none⟩) := by
  obtain ⟨hlt, hidle⟩ := h.held sid tx hopen
  have hold : ∀ sid' tx', ((Tenancy.release { srv with rows := rows } sid tx).sessions
      sid').transaction = some tx' → sid' ≠ sid ∧ (srv.sessions sid').transaction = some tx' := by
    intro sid' tx' htx'
    by_cases hsid : sid' = sid
    · subst hsid
      rw [release_self] at htx'
      cases htx'
    · rw [release_other hsid] at htx'
      exact ⟨hsid, htx'⟩
  have hapart : ∀ {sid' tx'}, sid' ≠ sid → (srv.sessions sid').transaction = some tx' →
      tx'.connection ≠ tx.connection := fun hsid htx' hc => hsid (h.apart _ _ _ _ htx' hopen hc)
  refine ⟨⟨?fresh, ?idle, ?nodup, ?held, ?apart⟩, hrows, ?tenantId, ?transaction⟩
  case fresh =>
    intro c hc
    have hne : c ≠ tx.connection := by
      have hle : srv.opened ≤ c := hc
      omega
    exact (Function.update_of_ne hne _ _).trans (h.fresh c hc)
  case idle =>
    intro c hc
    rcases List.mem_append.1 hc with hc | hc
    · have hne : c ≠ tx.connection := fun heq => hidle (heq ▸ hc)
      refine ⟨(h.idle c hc).1, ?_⟩
      rw [show (Tenancy.release { srv with rows := rows } sid tx).gucs c = srv.gucs c from
        Function.update_of_ne hne _ _]
      exact (h.idle c hc).2
    · obtain rfl := List.mem_singleton.1 hc
      refine ⟨hlt, ?_⟩
      rw [show (Tenancy.release { srv with rows := rows } sid tx).gucs tx.connection =
        (srv.gucs tx.connection).ended from Function.update_self _ _ _]
      exact Clean.ended _
  case nodup => exact List.nodup_append.2 ⟨h.nodup, List.nodup_singleton _, fun c hc c' hc' heq =>
      hidle (by rw [← List.mem_singleton.1 hc', ← heq]; exact hc)⟩
  case held =>
    intro sid' tx' htx'
    obtain ⟨hsid, htx'⟩ := hold sid' tx' htx'
    refine ⟨(h.held sid' tx' htx').1, ?_⟩
    simp only [Tenancy.release, Server.setSession, Server.setGuc, List.mem_append,
      List.mem_singleton, not_or]
    exact ⟨(h.held sid' tx' htx').2, hapart hsid htx'⟩
  case apart =>
    intro sid₁ sid₂ tx₁ tx₂ h₁ h₂ hc
    exact h.apart sid₁ sid₂ tx₁ tx₂ (hold sid₁ tx₁ h₁).2 (hold sid₂ tx₂ h₂).2 hc
  case tenantId =>
    intro sid'
    by_cases hsid : sid' = sid
    · subst hsid
      rw [release_self, Private.setSession_self]
      exact h.tenantId sid'
    · rw [release_other hsid, Private.setSession_other hsid]
      exact h.tenantId sid'
  case transaction =>
    intro sid'
    by_cases hsid : sid' = sid
    · subst hsid
      rw [release_self, Private.setSession_self]
      exact .none
    · rw [release_other hsid, Private.setSession_other hsid]
      have hrel := h.transaction sid'
      show Option.Rel _ (srv.sessions sid').transaction (db.sessions sid').transaction
      generalize (db.sessions sid').transaction = ptx at hrel ⊢
      cases htx' : (srv.sessions sid').transaction with
      | none =>
        rw [htx'] at hrel
        cases hrel
        exact .none
      | some tx' =>
        rw [htx'] at hrel
        cases hrel with
        | some hopen' => exact .some (hopen'.congr (Function.update_of_ne (hapart hsid htx') _ _))

/-- What a session finds when it takes a connection. -/
structure Taken (srv : Server α) (c : Nat) (srv' : Server α) : Prop extends Pooled srv' where
  sameRows : srv'.rows = srv.rows
  sameGucs : srv'.gucs = srv.gucs
  sameSessions : srv'.sessions = srv.sessions
  clean : (srv.gucs c).Clean
  known : c < srv'.opened
  taken : c ∉ srv'.idle
  free : ∀ sid tx, (srv.sessions sid).transaction = some tx → tx.connection ≠ c

theorem checkout_taken {srv : Server α} (h : Pooled srv) (choice : Nat) :
    Taken srv (checkout srv choice).1 (checkout srv choice).2 := by
  unfold checkout
  cases hidle : srv.idle[choice]? with
  | some c =>
    obtain ⟨hlt, hget⟩ := List.getElem?_eq_some_iff.1 hidle
    have hmem : c ∈ srv.idle := hget ▸ List.getElem_mem hlt
    have hsub : srv.idle.eraseIdx choice ⊆ srv.idle := List.eraseIdx_subset
    refine ⟨⟨h.fresh, fun c' hc' => h.idle c' (hsub hc'), h.nodup.eraseIdx choice, ?_, h.apart⟩,
      rfl, rfl, rfl, (h.idle c hmem).2, (h.idle c hmem).1, ?_, ?_⟩
    · exact fun sid tx htx => ⟨(h.held sid tx htx).1, fun hc => (h.held sid tx htx).2 (hsub hc)⟩
    · have hperm := List.getElem_cons_eraseIdx_perm hlt
      rw [hget] at hperm
      exact (List.nodup_cons.1 (hperm.nodup_iff.2 h.nodup)).1
    · exact fun sid tx htx hc => (h.held sid tx htx).2 (hc ▸ hmem)
  | none =>
    have hfresh : srv.opened ∉ srv.idle := fun hmem => (h.idle _ hmem).1.false
    refine ⟨⟨fun c hc => h.fresh c (Nat.le_of_succ_le hc), ?_, h.nodup, ?_, h.apart⟩, rfl, rfl, rfl,
      ?_, Nat.lt_succ_self _, hfresh, fun sid tx htx hc => ?_⟩
    · exact fun c hc => ⟨(h.idle c hc).1.trans (Nat.lt_succ_self _), (h.idle c hc).2⟩
    · exact fun sid tx htx => ⟨(h.held sid tx htx).1.trans (Nat.lt_succ_self _),
        (h.held sid tx htx).2⟩
    · intro t
      simp [h.fresh _ (le_refl _)]
    · exact (h.held sid tx htx).1.ne hc

theorem begin_open {srv : Server α} {sid : Nat} {tx : Transaction α}
    (h : (srv.sessions sid).transaction = some tx) (choice : Nat) :
    begin srv sid choice = (tx, srv) := by simp only [begin, h]

theorem begin_new {srv : Server α} {sid : Nat} (h : (srv.sessions sid).transaction = none)
    {choice c : Nat} {srv' : Server α} (hc : checkout srv choice = (c, srv')) :
    begin srv sid choice = (⟨c, [], false⟩,
      (srv'.setGuc c (applyTenantGuc (srv.sessions sid).tenantId (srv'.gucs c))).setSession sid
        ⟨(srv.sessions sid).tenantId, some ⟨c, [], false⟩⟩) := by
  simp only [begin, h, hc]

/-- The first statement of a transaction sets its tenant on the connection it takes. -/
theorem Refines.take {srv srv' : Server α} {db : Databases α} (h : Refines srv db) {c : Nat}
    (htaken : Taken srv c srv') (sid : Nat) (tenantId : Option Uuid) :
    Refines ((srv'.setGuc c (applyTenantGuc tenantId (srv'.gucs c))).setSession sid
        ⟨tenantId, some ⟨c, [], false⟩⟩)
      (db.setSession sid ⟨tenantId, some ⟨tenantId, [], false⟩⟩) := by
  let srv₁ := (srv'.setGuc c (applyTenantGuc tenantId (srv'.gucs c))).setSession sid
    ⟨tenantId, some ⟨c, [], false⟩⟩
  have hguc : ∀ c', c' ≠ c → srv₁.gucs c' = srv.gucs c' := fun c' hc' =>
    (Function.update_of_ne hc' _ _).trans (congrFun htaken.sameGucs c')
  have hself : srv₁.sessions sid = ⟨tenantId, some ⟨c, [], false⟩⟩ := setSession_self _ _ _
  have hother : ∀ sid', sid' ≠ sid → srv₁.sessions sid' = srv.sessions sid' := fun sid' hsid =>
    (setSession_other hsid _ _).trans (congrFun htaken.sameSessions sid')
  have hpool : Pooled srv₁ := by
    refine ⟨?fresh, ?idle, htaken.nodup, ?held, ?apart⟩
    case fresh =>
      intro c' hc'
      have hne : c' ≠ c := (htaken.known.trans_le hc').ne'
      rw [hguc c' hne, ← htaken.sameGucs]
      exact htaken.fresh c' hc'
    case idle =>
      intro c' hc'
      have hne : c' ≠ c := fun heq => htaken.taken (heq ▸ hc')
      rw [hguc c' hne, ← htaken.sameGucs]
      exact htaken.idle c' hc'
    case held =>
      intro sid' tx htx
      by_cases hsid : sid' = sid
      · subst hsid
        rw [hself] at htx
        cases htx
        exact ⟨htaken.known, htaken.taken⟩
      · rw [hother sid' hsid, ← htaken.sameSessions] at htx
        exact htaken.held sid' tx htx
    case apart =>
      intro sid₁ sid₂ tx₁ tx₂ h₁ h₂ hc
      by_cases hsid₁ : sid₁ = sid
      · by_cases hsid₂ : sid₂ = sid
        · exact hsid₁.trans hsid₂.symm
        · rw [hsid₁, hself] at h₁
          rw [hother sid₂ hsid₂] at h₂
          cases h₁
          exact absurd hc.symm (htaken.free sid₂ tx₂ h₂)
      · rw [hother sid₁ hsid₁] at h₁
        by_cases hsid₂ : sid₂ = sid
        · rw [hsid₂, hself] at h₂
          cases h₂
          exact absurd hc (htaken.free sid₁ tx₁ h₁)
        · rw [hother sid₂ hsid₂] at h₂
          exact h.apart sid₁ sid₂ tx₁ tx₂ h₁ h₂ hc
  refine ⟨hpool, ?rows, ?tenantId, ?transaction⟩
  case rows =>
    intro t
    rw [show srv₁.rows = srv.rows from htaken.sameRows]
    exact h.rows t
  case tenantId =>
    intro sid'
    by_cases hsid : sid' = sid
    · subst hsid
      rw [hself, Private.setSession_self]
    · rw [hother sid' hsid, Private.setSession_other hsid]
      exact h.tenantId sid'
  case transaction =>
    intro sid'
    by_cases hsid : sid' = sid
    · subst hsid
      rw [hself, Private.setSession_self]
      have hset : srv₁.gucs c = applyTenantGuc tenantId (srv'.gucs c) := Function.update_self _ _ _
      apply Option.Rel.some
      cases tenantId with
      | none =>
        rw [htaken.sameGucs] at hset
        exact .unbound (hset ▸ htaken.clean) (fun h => h)
      | some t => exact .bound [] false hset
    · rw [hother sid' hsid, Private.setSession_other hsid]
      have hrel := h.transaction sid'
      generalize (db.sessions sid').transaction = ptx at hrel ⊢
      cases htx : (srv.sessions sid').transaction with
      | none =>
        rw [htx] at hrel
        cases hrel
        exact .none
      | some tx =>
        rw [htx] at hrel
        cases hrel with
        | some hopen => exact .some (hopen.congr (hguc _ (htaken.free sid' tx htx)))

/-- A transaction is begun where the session has none. -/
theorem Refines.begin {srv : Server α} {db : Databases α} (h : Refines srv db) (sid choice : Nat) :
    (Tenancy.begin srv sid choice).2.sessions sid =
        ⟨(db.sessions sid).tenantId, some (Tenancy.begin srv sid choice).1⟩ ∧
      Refines (Tenancy.begin srv sid choice).2 (db.setSession sid ⟨(db.sessions sid).tenantId,
        some ((db.sessions sid).transaction.getD ⟨(db.sessions sid).tenantId, [], false⟩)⟩) := by
  have hrel := h.transaction sid
  have htenant := h.tenantId sid
  cases htx : (srv.sessions sid).transaction with
  | some tx =>
    rw [htx] at hrel
    cases hptx : (db.sessions sid).transaction with
    | none => rw [hptx] at hrel; cases hrel
    | some ptx =>
      have hsame : db.setSession sid ⟨(db.sessions sid).tenantId, some ptx⟩ = db := by
        rw [← hptx]
        simp [Databases.setSession]
      rw [begin_open htx, Option.getD_some, hsame, ← htenant, ← htx]
      exact ⟨rfl, h⟩
  | none =>
    rw [htx] at hrel
    cases hptx : (db.sessions sid).transaction with
    | some ptx => rw [hptx] at hrel; cases hrel
    | none =>
      rw [begin_new htx (show checkout srv choice = (_, _) from rfl), ← htenant]
      exact ⟨setSession_self _ _ _,
        h.take (checkout_taken h.toPooled choice) sid (srv.sessions sid).tenantId⟩

theorem execute_refines {srv : Server α} {db : Databases α} (h : Refines srv db) {sid : Nat}
    {tx : Transaction α} {ptx : Private.Transaction α}
    (htx : (srv.sessions sid).transaction = some tx)
    (hptx : (db.sessions sid).transaction = some ptx) (stamp : Uuid) (st : Statement α) :
    OpenRefines srv.gucs (execute srv.rows (srv.gucs tx.connection) stamp tx st).1
        (Private.execute db.tables stamp ptx st).1 ∧
      (Private.execute db.tables stamp ptx st).2.Permits
        (execute srv.rows (srv.gucs tx.connection) stamp tx st).2 := by
  have hrel := h.transaction sid
  rw [htx, hptx] at hrel
  cases hrel with
  | some hopen =>
    cases hopen with
    | bound cs failed hguc => exact bound_executes hguc (h.rows _) cs failed stamp st
    | unbound hclean hf => exact unbound_executes hclean hf srv.rows db.tables stamp st

/-! ## The whole process -/

theorem execute_step {srv : Server α} {db : Databases α} (h : Refines srv db) (sid choice : Nat)
    (st : Statement α) :
    Refines (step srv (.execute sid choice st)).1 (Private.step db (.execute sid choice st)).1 ∧
      (Private.step db (.execute sid choice st)).2.Permits
        (step srv (.execute sid choice st)).2 := by
  obtain ⟨hsession, hbegun⟩ := h.begin sid choice
  simp only [step, Private.step]
  generalize begin srv sid choice = begun at hsession hbegun ⊢
  generalize (db.sessions sid).transaction.getD ⟨(db.sessions sid).tenantId, [], false⟩ = ptx
    at hbegun ⊢
  have htx : (begun.2.sessions sid).transaction = some begun.1 := by rw [hsession]
  have hptx : ((db.setSession sid ⟨(db.sessions sid).tenantId, some ptx⟩).sessions
      sid).transaction = some ptx := by rw [Private.setSession_self]
  obtain ⟨hopen, hanswer⟩ := execute_refines hbegun htx hptx
    (tenantOrDefault (db.sessions sid).tenantId) st
  rw [hsession]
  refine ⟨?_, hanswer⟩
  have hput := hbegun.setSession sid (db.sessions sid).tenantId
    (fun tx' htx' => ⟨begun.1, htx, by cases htx'; exact (execute_connection _ _ _ _ _).symm⟩)
    (.some hopen)
  simpa only [Databases.setSession, Function.update_idem] using hput

/-- What a commit writes to the shared rows, it writes to the table of one tenant. -/
theorem commit_rows {srv : Server α} {db : Databases α} (h : Refines srv db)
    {tx : Transaction α} {ptx : Private.Transaction α}
    (hopen : OpenRefines srv.gucs tx ptx) (t : Uuid) :
    own t (if tx.failed then srv.rows else tx.writes.foldl applyWrite srv.rows) =
      (if ptx.failed then db.tables else Private.store db.tables ptx) t := by
  cases hopen with
  | unbound hclean hf => simp [Private.store, h.rows t]
  | @bound c s cs failed hguc =>
    cases failed with
    | true => exact h.rows t
    | false =>
      simp only [Bool.false_eq_true, if_false, Private.store]
      by_cases ht : t = s
      · subst ht
        rw [own_foldl, h.rows t, Function.update_self]
      · rw [own_foldl_other ht, h.rows t, Function.update_of_ne ht]

theorem commit_step {srv : Server α} {db : Databases α} (h : Refines srv db) (sid : Nat) :
    Refines (step srv (.commit sid)).1 (Private.step db (.commit sid)).1 ∧
      (Private.step db (.commit sid)).2.Permits (step srv (.commit sid)).2 := by
  have hrel := h.transaction sid
  simp only [step, Private.step]
  generalize hptx : (db.sessions sid).transaction = ptx at hrel ⊢
  cases htx : (srv.sessions sid).transaction with
  | none =>
    rw [htx] at hrel
    cases hrel
    exact ⟨h, rfl⟩
  | some tx =>
    rw [htx] at hrel
    cases hrel with
    | some hopen => exact ⟨h.release htx (commit_rows h hopen), rfl⟩

theorem rollback_step {srv : Server α} {db : Databases α} (h : Refines srv db) (sid : Nat) :
    Refines (step srv (.rollback sid)).1 (Private.step db (.rollback sid)).1 ∧
      (Private.step db (.rollback sid)).2.Permits (step srv (.rollback sid)).2 := by
  have hrel := h.transaction sid
  simp only [step, Private.step]
  generalize (db.sessions sid).transaction = ptx at hrel ⊢
  cases htx : (srv.sessions sid).transaction with
  | none =>
    rw [htx] at hrel
    cases hrel
    exact ⟨h, rfl⟩
  | some tx =>
    rw [htx] at hrel
    cases hrel with
    | some hopen => exact ⟨h.release htx h.rows, rfl⟩

theorem recycle_step {srv : Server α} {db : Databases α} (h : Refines srv db) (choice : Nat) :
    Refines { srv with idle := srv.idle.eraseIdx choice } db := by
  have hsub : srv.idle.eraseIdx choice ⊆ srv.idle := List.eraseIdx_subset
  exact ⟨⟨h.fresh, fun c hc => h.idle c (hsub hc), h.nodup.eraseIdx choice,
    fun sid tx htx => ⟨(h.held sid tx htx).1, fun hc => (h.held sid tx htx).2 (hsub hc)⟩, h.apart⟩,
    h.rows, h.tenantId, h.transaction⟩

theorem step_refines {srv : Server α} {db : Databases α} (h : Refines srv db) (e : Event α) :
    Refines (step srv e).1 (Private.step db e).1 ∧
      (Private.step db e).2.Permits (step srv e).2 := by
  cases e with
  | bind sid tenantId =>
    exact ⟨h.setSession sid tenantId (fun tx' htx' => ⟨tx', htx', rfl⟩) (h.transaction sid), rfl⟩
  | execute sid choice st => exact execute_step h sid choice st
  | commit sid => exact commit_step h sid
  | rollback sid => exact rollback_step h sid
  | recycle choice => exact ⟨recycle_step h choice, rfl⟩

theorem step_simulates : Simulates (step (α := α)) Private.step Refines
    (fun a outcome => outcome.Permits a) :=
  ⟨fun _ _ e h => (step_refines h e).1, fun _ _ e h => (step_refines h e).2⟩

/-- **The policies give every tenant a database of its own**: however the sessions of the process
interleave, whichever connections they share and whoever used them before, the rows of a tenant
are those of its private database, and a statement is answered as its private database answers
it. A session without a tenant reads nothing and stores nothing. -/
theorem tenants_apart (rows : List (Row α)) (es : List (Event α)) :
    (∀ t, own t (final step (start rows) es).rows =
      (final Private.step (Private.start fun t => own t rows) es).tables t) ∧
    List.Forall₂ (fun a outcome => outcome.Permits a) (answers step (start rows) es)
      (answers Private.step (Private.start fun t => own t rows) es) := by
  obtain ⟨hend, hanswers⟩ := step_simulates.run es (start_refines rows)
  exact ⟨hend.rows, hanswers⟩

end

end Tenancy

end Constat
