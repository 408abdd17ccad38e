import Mathlib.Data.List.Induction
import Mathlib.Data.List.Sort
import Constat.Collectors.Aws
import Constat.Lib.Loop
import Constat.Py.Csv
import Constat.Py.ReprText

/-!
# CollectTargets

`POST /collect/targets/import` of `routers/collect_targets.py` and `upsert` of its repository. A row
is rejected with a fixed reason, except when it names unknown regions: these it quotes, whatever the
customer put in that column.

* `checkRow`           — a row that is clean, or why it is not.
* `importTargets`      — the response, and what is stored then; one that raises stores nothing.
* `Alike`              — two CSVs whose rows have the same accounts and fail the same checks.
* `ImportLaw`          — the counts, the rows stored, and a second import.
* `import_reveals_iff` — alike CSVs have one response exactly when their rejected rows end on the
                         same lines and name the same unknown regions; each import keeps the law.
-/

namespace Constat

open Collectors (defaultRegions)

namespace CollectTargets

open Py

/-! ## Rows -/

structure CleanRow where
  awsAccountId : String
  roleArn : String
  externalId : String
  name : Option String
  regions : Option (List String)
deriving DecidableEq

inductive Reason where
  | accountId
  | roleArn
  | externalId
  | regions (unknown : List String)
deriving DecidableEq

def quoted (names : List String) : String := Py.str (.list (names.map .str))

def Reason.text : Reason → String
  | .accountId => "aws_account_id must be 12 digits"
  | .roleArn => "role_arn is required"
  | .externalId => "external_id is required when role_arn is set (F-06)"
  | .regions unknown => "unknown region(s) " ++ quoted unknown ++ " (known: " ++
      quoted (defaultRegions.insertionSort (· ≤ ·)) ++ ")"

/-- `(row.get(name) or "").strip()`. -/
def cell (row : Csv.Row) (name : String) : List Char :=
  strip ((row.get? name).join.getD "").toList

/-- ACCOUNT_ID_RE; `\d` is any decimal digit of Unicode. -/
def isAccountId (cs : List Char) : Bool :=
  cs.length = 12 && cs.all fun c => (decimalValue c).isSome

def nonempty (cs : List Char) : Option String := if cs = [] then none else some (String.ofList cs)

def parseRegions (cs : List Char) : List String :=
  ((split ';' cs).map strip).filterMap nonempty

/-- `sorted(set(regions) - set(DEFAULT_REGIONS))`. -/
def unknownRegions (regions : List String) : List String :=
  (regions.filter (· ∉ defaultRegions)).dedup.insertionSort (· ≤ ·)

def checkRow (row : Csv.Row) : Except Reason CleanRow :=
  let accountId := cell row "aws_account_id"
  let roleArn := cell row "role_arn"
  let externalId := cell row "external_id"
  if !isAccountId accountId then .error .accountId
  else if roleArn = [] then .error .roleArn
  else if externalId = [] then .error .externalId
  else
    let regions := (nonempty (cell row "regions")).map fun text => parseRegions text.toList
    let unknown := unknownRegions (regions.getD [])
    if unknown ≠ [] then .error (.regions unknown)
    else .ok {
      awsAccountId := String.ofList accountId
      roleArn := String.ofList roleArn
      externalId := String.ofList externalId
      name := nonempty (cell row "name")
      regions := regions }

structure ImportRejectedRow where
  line : Nat
  reason : String
deriving DecidableEq

def validateRow (line : Nat) (row : Csv.Row) : Except ImportRejectedRow CleanRow :=
  (checkRow row).mapError fun reason => ⟨line, reason.text⟩

/-! ## Targets -/

/-- The row of an account, which is its key. -/
structure CollectTarget where
  roleArn : String
  externalId : String
  name : Option String
  regions : Option (List String)
  resourceTypes : Option (List String)
  createdAt : Micros
  updatedAt : Micros
deriving DecidableEq

/-- What one tenant sees of the two tables that an import writes. -/
structure TargetStore where
  targets : Dict String CollectTarget
  auditEvents : Table AuditEventRow.id

/-- The target, and whether it is a new one. -/
def upsert (targets : Dict String CollectTarget) (row : CleanRow) (now : Micros) :
    Dict String CollectTarget × Bool :=
  match targets.get? row.awsAccountId with
  | some existing => (targets.set row.awsAccountId { existing with
      roleArn := row.roleArn
      externalId := row.externalId
      name := row.name
      regions := row.regions
      resourceTypes := none
      updatedAt := now }, false)
  | none => (targets.set row.awsAccountId {
      roleArn := row.roleArn
      externalId := row.externalId
      name := row.name
      regions := row.regions
      resourceTypes := none
      createdAt := now
      updatedAt := now }, true)

/-! ## The import -/

structure ImportTargetsResponse where
  imported : Nat
  updated : Nat
  rejected : List ImportRejectedRow
deriving DecidableEq

inductive ImportError where
  | http (statusCode : Nat) (detail : String)
  | raised (e : PyError)
deriving DecidableEq

/-- A request by its content type: JSON, text, or neither. -/
inductive Request where
  | json (payload : Json)
  | text (body : String)
  | other

def Request.csvText : Request → Except ImportError String
  | .json (.obj fields) =>
    match fields.find? fun field => field.1 = "csv" with
    | some (_, .str csv) => .ok csv
    | _ => .error (.http 422 "JSON body must be \x7b\"csv\": \"...\"\x7d")
  | .json _ => .error (.http 422 "JSON body must be \x7b\"csv\": \"...\"\x7d")
  | .text body => .ok body
  | .other => .error (.http 415
      "unsupported content-type: send text/csv or application/json")

def requiredCsvColumns : List String := ["aws_account_id", "role_arn", "external_id"]

/-- The columns of the header, if there are all those required. -/
def importable (reading : Csv.Reading) : Bool :=
  match reading.fieldnames with
  | none => false
  | some fieldnames => requiredCsvColumns.all fun column => column ∈ fieldnames

structure Progress where
  targets : Dict String CollectTarget
  response : ImportTargetsResponse

def importRow (clock : Nat → Micros) (st : Progress) (row : Nat × Csv.Row) : Progress :=
  match validateRow row.1 row.2 with
  | .error rejection =>
    { st with response := { st.response with rejected := st.response.rejected ++ [rejection] } }
  | .ok clean =>
    match upsert st.targets clean (clock row.1) with
    | (targets, true) =>
      ⟨targets, { st.response with imported := st.response.imported + 1 }⟩
    | (targets, false) => ⟨targets, { st.response with updated := st.response.updated + 1 }⟩

def importRows (clock : Nat → Micros) (targets : Dict String CollectTarget)
    (rows : List (Nat × Csv.Row)) : Progress :=
  rows.foldl (importRow clock) ⟨targets, 0, 0, []⟩

def auditRow (s : TargetStore) (actor : String) (response : ImportTargetsResponse) :
    AuditEventRow where
  id := s.auditEvents.next
  actor := actor
  action := "collect_targets_imported"
  targetType := some "collect_targets"
  targetId := none
  metadata := [("imported", .int response.imported), ("updated", .int response.updated),
    ("rejected", .int response.rejected.length)]

/-- The first thing the reader raises: before the header is checked if it is the header's, else when
the rows before it are done. -/
def importTargets (clock : Nat → Micros) (actor : String) (s : TargetStore) (request : Request) :
    Except ImportError (TargetStore × ImportTargetsResponse) :=
  match request.csvText with
  | .error e => .error e
  | .ok text =>
    let reading := Csv.read text
    match reading.fieldnames, reading.error with
    | none, some e => .error (.raised e)
    | _, error =>
      if !importable reading then
        .error (.http 422 ("CSV header must include: " ++ ", ".intercalate requiredCsvColumns))
      else
        let st := importRows clock s.targets reading.rows
        match error with
        | some e => .error (.raised e)
        | none => .ok (⟨st.targets, s.auditEvents.put (auditRow s actor st.response)⟩, st.response)

def response (clock : Nat → Micros) (actor : String) (s : TargetStore) (request : Request) :
    Except ImportError ImportTargetsResponse :=
  (importTargets clock actor s request).map (·.2)

/-- A CSV that can be read to its end. -/
theorem importTargets_of_csv {request : Request} {text : String} (hcsv : request.csvText = .ok text)
    (hread : (Csv.read text).error = none) (clock : Nat → Micros) (actor : String)
    (s : TargetStore) : importTargets clock actor s request =
      if importable (Csv.read text) then
        let st := importRows clock s.targets (Csv.read text).rows
        .ok (⟨st.targets, s.auditEvents.put (auditRow s actor st.response)⟩, st.response)
      else .error (.http 422
        ("CSV header must include: " ++ ", ".intercalate requiredCsvColumns)) := by
  simp only [importTargets, hcsv, hread]
  cases (Csv.read text).fieldnames <;> cases importable (Csv.read text) <;> rfl

/-! ## One row -/

theorem checkRow_account {row : Csv.Row} {clean : CleanRow} (h : checkRow row = .ok clean) :
    clean.awsAccountId = String.ofList (cell row "aws_account_id") := by
  simp only [checkRow] at h
  split at h
  · cases h
  · split at h
    · cases h
    · split at h
      · cases h
      · split at h
        · cases h
        · cases h
          rfl

/-- What is held of an account, its times apart. -/
def held (targets : Dict String CollectTarget) (account : String) :
    Option (CleanRow × Option (List String)) :=
  (targets.get? account).map fun t =>
    (⟨account, t.roleArn, t.externalId, t.name, t.regions⟩, t.resourceTypes)

theorem upsert_held (targets : Dict String CollectTarget) (clean : CleanRow) (now : Micros)
    (account : String) : held (upsert targets clean now).1 account =
      if clean.awsAccountId = account then some (clean, none) else held targets account := by
  simp only [upsert, held]
  split
  all_goals
    rw [Dict.get?_set]
    by_cases heq : clean.awsAccountId = account
    · subst heq
      simp
    · rw [if_neg fun h => heq h.symm, if_neg heq]

theorem upsert_created (targets : Dict String CollectTarget) (clean : CleanRow) (now : Micros) :
    (upsert targets clean now).2 = !(held targets clean.awsAccountId).isSome := by
  simp only [upsert, held]
  cases targets.get? clean.awsAccountId <;> rfl

/-- A row is rejected, or its target stored and counted. -/
theorem importRow_cases (clock : Nat → Micros) (st : Progress) (row : Nat × Csv.Row) :
    (∃ reason, checkRow row.2 = .error reason ∧ (importRow clock st row).targets = st.targets ∧
      (importRow clock st row).response =
        { st.response with rejected := st.response.rejected ++ [⟨row.1, reason.text⟩] }) ∨
    ∃ clean, checkRow row.2 = .ok clean ∧
      (importRow clock st row).targets = (upsert st.targets clean (clock row.1)).1 ∧
      (importRow clock st row).response =
        if (held st.targets clean.awsAccountId).isSome then
          { st.response with updated := st.response.updated + 1 }
        else { st.response with imported := st.response.imported + 1 } := by
  cases hcheck : checkRow row.2 with
  | error reason =>
    have hrejected : validateRow row.1 row.2 = .error ⟨row.1, reason.text⟩ := by
      simp [validateRow, hcheck, Except.mapError]
    exact .inl ⟨reason, rfl, by simp [importRow, hrejected]⟩
  | ok clean =>
    refine .inr ⟨clean, rfl, ?_⟩
    have hcreated := upsert_created st.targets clean (clock row.1)
    rcases hupsert : upsert st.targets clean (clock row.1) with ⟨targets, created⟩
    rw [hupsert] at hcreated
    have hvalid : validateRow row.1 row.2 = .ok clean := by
      simp [validateRow, hcheck, Except.mapError]
    cases hheld : (held st.targets clean.awsAccountId).isSome with
    | true =>
      have hfalse : created = false := by simpa [hheld] using hcreated
      simp [importRow, hvalid, hupsert, hfalse]
    | false =>
      have htrue : created = true := by simpa [hheld] using hcreated
      simp [importRow, hvalid, hupsert, htrue]

/-! ## All rows -/

def acceptedRow (row : Nat × Csv.Row) : Option CleanRow := (checkRow row.2).toOption

/-- The last row of an account that is accepted. -/
def lastAccepted (rows : List (Nat × Csv.Row)) (account : String) : Option CleanRow :=
  ((rows.filterMap acceptedRow).filter (·.awsAccountId = account)).getLast?

def rejection (row : Nat × Csv.Row) : Option ImportRejectedRow :=
  match checkRow row.2 with
  | .error reason => some ⟨row.1, reason.text⟩
  | .ok _ => none

theorem importRows_snoc (clock : Nat → Micros) (targets : Dict String CollectTarget)
    (rows : List (Nat × Csv.Row)) (row : Nat × Csv.Row) :
    importRows clock targets (rows ++ [row]) =
      importRow clock (importRows clock targets rows) row := by
  simp [importRows]

theorem importRows_counted (clock : Nat → Micros) (targets : Dict String CollectTarget)
    (rows : List (Nat × Csv.Row)) : let r := (importRows clock targets rows).response
    r.imported + r.updated + r.rejected.length = rows.length := by
  induction rows using List.reverseRecOn with
  | nil => rfl
  | append_singleton rows row ih =>
    simp only [importRows_snoc, List.length_append, List.length_singleton] at ih ⊢
    rw [← ih]
    rcases importRow_cases clock (importRows clock targets rows) row with
      ⟨reason, _, _, hresponse⟩ | ⟨clean, _, _, hresponse⟩
    · rw [hresponse]
      simp only [List.length_append, List.length_singleton]
      omega
    · rw [hresponse]
      split <;> (simp only; omega)

theorem importRows_rejected (clock : Nat → Micros) (targets : Dict String CollectTarget)
    (rows : List (Nat × Csv.Row)) :
    (importRows clock targets rows).response.rejected = rows.filterMap rejection := by
  induction rows using List.reverseRecOn with
  | nil => rfl
  | append_singleton rows row ih =>
    rw [importRows_snoc, List.filterMap_append]
    rcases importRow_cases clock (importRows clock targets rows) row with
      ⟨reason, hcheck, _, hresponse⟩ | ⟨clean, hcheck, _, hresponse⟩
    · rw [hresponse, ← ih]
      simp [rejection, hcheck]
    · have hnone : [row].filterMap rejection = [] := by simp [rejection, hcheck]
      rw [hresponse, hnone, List.append_nil, ← ih]
      split <;> rfl

/-- Of each account the last accepted row is stored; the others keep their targets. -/
theorem importRows_held (clock : Nat → Micros) (targets : Dict String CollectTarget)
    (rows : List (Nat × Csv.Row)) (account : String) :
    held (importRows clock targets rows).targets account =
      match lastAccepted rows account with
      | some clean => some (clean, none)
      | none => held targets account := by
  induction rows using List.reverseRecOn with
  | nil => rfl
  | append_singleton rows row ih =>
    rw [importRows_snoc]
    rcases importRow_cases clock (importRows clock targets rows) row with
      ⟨reason, hcheck, htargets, _⟩ | ⟨clean, hcheck, htargets, _⟩
    · rw [htargets, ih]
      simp [lastAccepted, acceptedRow, hcheck, Except.toOption]
    · rw [htargets, upsert_held, ih]
      by_cases heq : clean.awsAccountId = account
      · simp [lastAccepted, acceptedRow, hcheck, Except.toOption, heq]
      · simp [lastAccepted, acceptedRow, hcheck, Except.toOption, heq]

theorem held_of_accepted {clock : Nat → Micros} {targets : Dict String CollectTarget}
    {rows : List (Nat × Csv.Row)} {row : Nat × Csv.Row} {clean : CleanRow} (hrow : row ∈ rows)
    (hcheck : checkRow row.2 = .ok clean) :
    (held (importRows clock targets rows).targets clean.awsAccountId).isSome = true := by
  have hmem : clean ∈
      (rows.filterMap acceptedRow).filter (·.awsAccountId = clean.awsAccountId) := by
    rw [List.mem_filter]
    exact ⟨List.mem_filterMap.2 ⟨row, hrow, by simp [acceptedRow, hcheck, Except.toOption]⟩,
      by simp⟩
  rw [importRows_held]
  cases hlast : lastAccepted rows clean.awsAccountId with
  | some last => rfl
  | none =>
    rw [lastAccepted, List.getLast?_eq_none_iff] at hlast
    rw [hlast] at hmem
    cases hmem

/-- Rows whose accounts are all held are no imports. -/
theorem importRows_again {clock : Nat → Micros} {targets : Dict String CollectTarget}
    {rows : List (Nat × Csv.Row)} (h : ∀ row ∈ rows, ∀ clean, checkRow row.2 = .ok clean →
      (held targets clean.awsAccountId).isSome = true) :
    (importRows clock targets rows).response.imported = 0 := by
  induction rows using List.reverseRecOn with
  | nil => rfl
  | append_singleton rows row ih =>
    have hbefore := ih fun r hr => h r (List.mem_append_left _ hr)
    rw [importRows_snoc]
    rcases importRow_cases clock (importRows clock targets rows) row with
      ⟨reason, _, _, hresponse⟩ | ⟨clean, hcheck, _, hresponse⟩
    · rw [hresponse]
      exact hbefore
    · have hheld : (held (importRows clock targets rows).targets clean.awsAccountId).isSome =
          true := by
        rw [importRows_held]
        split
        · rfl
        · exact h row (by simp) clean hcheck
      rw [hresponse, if_pos hheld]
      exact hbefore

/-- What an import of these rows leaves behind. -/
structure ImportLaw (request : Request) (rows : List (Nat × Csv.Row)) (s s' : TargetStore)
    (res : ImportTargetsResponse) : Prop where
  counted : res.imported + res.updated + res.rejected.length = rows.length
  stored : ∀ account, held s'.targets account =
    match lastAccepted rows account with
    | some clean => some (clean, none)
    | none => held s.targets account
  again : ∀ clock actor, ∃ s'' res', importTargets clock actor s' request = .ok (s'', res') ∧
    res'.imported = 0 ∧ ∀ account, held s''.targets account = held s'.targets account

theorem importTargets_law {request : Request} {text : String} (hcsv : request.csvText = .ok text)
    (hread : (Csv.read text).error = none) (himportable : importable (Csv.read text) = true)
    (clock : Nat → Micros) (actor : String) (s : TargetStore) :
    ∃ s' res, importTargets clock actor s request = .ok (s', res) ∧
      ImportLaw request (Csv.read text).rows s s' res := by
  have hrun := importTargets_of_csv hcsv hread
  simp only [if_pos himportable] at hrun
  refine ⟨_, _, hrun clock actor s, importRows_counted _ _ _, importRows_held _ _ _,
    fun clock' actor' => ⟨_, _, hrun clock' actor' _, ?_, fun account => ?_⟩⟩
  · exact importRows_again fun row hrow clean hcheck => held_of_accepted hrow hcheck
  · rw [importRows_held clock']
    split
    · rename_i clean hlast
      rw [importRows_held, hlast]
    · rfl

/-! ## Two imports -/

inductive Check where
  | accountId
  | roleArn
  | externalId
  | regions
deriving DecidableEq

def Reason.check : Reason → Check
  | .accountId => .accountId
  | .roleArn => .roleArn
  | .externalId => .externalId
  | .regions _ => .regions

/-- The check that rejects the row, if one does. -/
def rejectedBy (row : Csv.Row) : Option Check :=
  match checkRow row with
  | .error reason => some reason.check
  | .ok _ => none

structure AlikeRow (row row' : Nat × Csv.Row) : Prop where
  account : row.2.get? "aws_account_id" = row'.2.get? "aws_account_id"
  check : rejectedBy row.2 = rejectedBy row'.2

instance (row row' : Nat × Csv.Row) : Decidable (AlikeRow row row') :=
  decidable_of_iff (_ ∧ _) ⟨fun h => ⟨h.1, h.2⟩, fun h => ⟨h.account, h.check⟩⟩

/-- Two CSVs that differ in the cells beside the accounts, as far as no check tells them apart. -/
structure Alike (reading reading' : Csv.Reading) : Prop where
  read : reading.error = none ∧ reading'.error = none
  header : reading.fieldnames = reading'.fieldnames
  rows : List.Forall₂ AlikeRow reading.rows reading'.rows

instance (reading reading' : Csv.Reading) : Decidable (Alike reading reading') :=
  decidable_of_iff ((_ ∧ _) ∧ _ ∧ _)
    ⟨fun h => ⟨h.1, h.2.1, h.2.2⟩, fun h => ⟨h.read, h.header, h.rows⟩⟩

/-- A rejected row ends on the same line as its counterpart and is rejected for the same reason: it
names the same unknown regions, if any. -/
def SameRejection (row row' : Nat × Csv.Row) : Prop :=
  ∀ reason reason', checkRow row.2 = .error reason → checkRow row'.2 = .error reason' →
    row.1 = row'.1 ∧ reason = reason'

/-- The two stores have targets of the same accounts. -/
def SameAccounts (targets targets' : Dict String CollectTarget) : Prop :=
  ∀ account, (held targets account).isSome = (held targets' account).isSome

theorem SameAccounts.upsert {targets targets' : Dict String CollectTarget} {clean clean' : CleanRow}
    (h : SameAccounts targets targets') (haccount : clean.awsAccountId = clean'.awsAccountId)
    (now now' : Micros) :
    SameAccounts (upsert targets clean now).1 (upsert targets' clean' now').1 := by
  intro account
  rw [upsert_held, upsert_held, haccount]
  split
  · rfl
  · exact h account

/-- Two runs over alike rows count the same. -/
structure SameProgress (st st' : Progress) : Prop where
  accounts : SameAccounts st.targets st'.targets
  imported : st.response.imported = st'.response.imported
  updated : st.response.updated = st'.response.updated

theorem importRow_alike {clock clock' : Nat → Micros} {st st' : Progress} {row row' : Nat × Csv.Row}
    (h : SameProgress st st') (hrow : AlikeRow row row') :
    SameProgress (importRow clock st row) (importRow clock' st' row') := by
  obtain ⟨haccount, hcheck⟩ := hrow
  rcases importRow_cases clock st row with
    ⟨reason, herror, htargets, hresponse⟩ | ⟨clean, hok, htargets, hresponse⟩
  · rcases importRow_cases clock' st' row' with
      ⟨reason', _, htargets', hresponse'⟩ | ⟨clean', hok', _, _⟩
    · refine ⟨?_, ?_, ?_⟩
      · rw [htargets, htargets']
        exact h.accounts
      · rw [hresponse, hresponse']
        exact h.imported
      · rw [hresponse, hresponse']
        exact h.updated
    · simp [rejectedBy, herror, hok'] at hcheck
  · rcases importRow_cases clock' st' row' with
      ⟨reason', herror', _, _⟩ | ⟨clean', hok', htargets', hresponse'⟩
    · simp [rejectedBy, hok, herror'] at hcheck
    · have hsame : clean.awsAccountId = clean'.awsAccountId := by
        rw [checkRow_account hok, checkRow_account hok', cell, cell, haccount]
      have hheld := h.accounts clean.awsAccountId
      rw [hsame] at hheld
      refine ⟨?_, ?_, ?_⟩
      · rw [htargets, htargets']
        exact h.accounts.upsert hsame _ _
      · rw [hresponse, hresponse', hsame, hheld]
        split <;> simp [h.imported]
      · rw [hresponse, hresponse', hsame, hheld]
        split <;> simp [h.updated]

theorem importRows_alike {clock clock' : Nat → Micros} {rows rows' : List (Nat × Csv.Row)}
    (hrows : List.Forall₂ AlikeRow rows rows') : ∀ {st st' : Progress}, SameProgress st st' →
      SameProgress (rows.foldl (importRow clock) st) (rows'.foldl (importRow clock') st') := by
  induction hrows with
  | nil => exact fun h => h
  | cons hrow _ ih => exact fun h => ih (importRow_alike h hrow)

/-! ### What a rejection tells -/

theorem regions_text : ∃ known, ∀ unknown,
    (Reason.regions unknown).text = "unknown region(s) " ++ (quoted unknown ++ known) := by
  refine ⟨" (known: " ++ (quoted (defaultRegions.insertionSort (· ≤ ·)) ++ ")"), fun unknown => ?_⟩
  unfold Reason.text
  dsimp only
  rw [String.append_assoc, String.append_assoc, String.append_assoc]

/-- Among the rejections by one check, the text tells the reason. -/
theorem text_inj {reason reason' : Reason} (hcheck : reason.check = reason'.check)
    (h : reason.text = reason'.text) : reason = reason' := by
  cases reason <;> cases reason' <;> try cases hcheck
  case regions unknown unknown' =>
    obtain ⟨known, htext⟩ := regions_text
    rw [htext, htext] at h
    have hlist := congrArg String.toList h
    simp only [String.toList_append] at hlist
    have hquoted : (quoted unknown).toList = (quoted unknown').toList :=
      List.append_cancel_right (List.append_cancel_left hlist)
    exact congrArg Reason.regions (Py.str_inj (String.toList_inj.1 hquoted))
  all_goals rfl

theorem rejections_eq_iff {rows rows' : List (Nat × Csv.Row)}
    (hrows : List.Forall₂ AlikeRow rows rows') :
    rows.filterMap rejection = rows'.filterMap rejection ↔
      List.Forall₂ SameRejection rows rows' := by
  induction hrows with
  | nil => exact iff_of_true rfl .nil
  | @cons row row' rows rows' hrow _ ih =>
    rw [List.forall₂_cons, ← ih]
    have hsame := hrow.check
    cases hcheck : checkRow row.2 with
    | ok clean =>
      cases hcheck' : checkRow row'.2 with
      | error reason' => simp [rejectedBy, hcheck, hcheck'] at hsame
      | ok clean' =>
        have hvacuous : SameRejection row row' := fun reason _ herror _ => by
          rw [hcheck] at herror
          cases herror
        simp [rejection, hcheck, hcheck', hvacuous]
    | error reason =>
      cases hcheck' : checkRow row'.2 with
      | ok clean' => simp [rejectedBy, hcheck, hcheck'] at hsame
      | error reason' =>
        have hkind : reason.check = reason'.check := by
          simpa [rejectedBy, hcheck, hcheck'] using hsame
        have hiff : SameRejection row row' ↔ row.1 = row'.1 ∧ reason.text = reason'.text := by
          constructor
          · intro h
            obtain ⟨hline, hreason⟩ := h reason reason' hcheck hcheck'
            exact ⟨hline, congrArg Reason.text hreason⟩
          · rintro ⟨hline, htext⟩ r r' hr hr'
            rw [hcheck] at hr
            rw [hcheck'] at hr'
            cases hr
            cases hr'
            exact ⟨hline, text_inj hkind htext⟩
        rw [hiff]
        simp [rejection, hcheck, hcheck']

/-- Alike CSVs that are imported have one response exactly when their rejections are the same. -/
theorem response_eq_iff {request request' : Request} {text text' : String}
    (hcsv : request.csvText = .ok text) (hcsv' : request'.csvText = .ok text')
    (halike : Alike (Csv.read text) (Csv.read text')) (clock clock' : Nat → Micros) (actor : String)
    (s : TargetStore) :
    response clock actor s request = response clock' actor s request' ↔
      (importable (Csv.read text) = true →
        List.Forall₂ SameRejection (Csv.read text).rows (Csv.read text').rows) := by
  have hheader : importable (Csv.read text') = importable (Csv.read text) := by
    rw [importable, importable, halike.header]
  rw [response, response, importTargets_of_csv hcsv halike.read.1,
    importTargets_of_csv hcsv' halike.read.2, hheader]
  cases himportable : importable (Csv.read text) with
  | false => exact iff_of_true rfl fun h => by cases h
  | true =>
    have hprogress : SameProgress (importRows clock s.targets (Csv.read text).rows)
        (importRows clock' s.targets (Csv.read text').rows) :=
      importRows_alike halike.rows ⟨fun _ => rfl, rfl, rfl⟩
    have hrejected := rejections_eq_iff halike.rows
    rw [← importRows_rejected clock s.targets, ← importRows_rejected clock' s.targets] at hrejected
    simp only [if_true, Except.map, Except.ok.injEq, true_implies]
    rw [← hrejected]
    constructor
    · exact fun heq => congrArg ImportTargetsResponse.rejected heq
    · intro heq
      rcases hr : (importRows clock s.targets (Csv.read text).rows).response with ⟨i, u, r⟩
      rcases hr' : (importRows clock' s.targets (Csv.read text').rows).response with ⟨i', u', r'⟩
      have himported := hprogress.imported
      have hupdated := hprogress.updated
      rw [hr, hr'] at himported hupdated heq
      cases himported
      cases hupdated
      cases heq
      rfl

/-- For any store: the response to a CSV tells it apart from an alike one exactly by the lines and
the unknown regions of its rejected rows; and every import keeps the law. -/
theorem import_reveals_iff (actor : String) (s : TargetStore) :
    (∀ (request request' : Request) (text text' : String), request.csvText = .ok text →
      request'.csvText = .ok text' → Alike (Csv.read text) (Csv.read text') →
        ∀ clock clock', response clock actor s request = response clock' actor s request' ↔
          (importable (Csv.read text) = true →
            List.Forall₂ SameRejection (Csv.read text).rows (Csv.read text').rows)) ∧
    ∀ (request : Request) (text : String), request.csvText = .ok text →
      (Csv.read text).error = none → importable (Csv.read text) = true →
        ∀ clock, ∃ s' res, importTargets clock actor s request = .ok (s', res) ∧
          ImportLaw request (Csv.read text).rows s s' res :=
  ⟨fun _ _ _ _ hcsv hcsv' halike clock clock' =>
      response_eq_iff hcsv hcsv' halike clock clock' actor s,
    fun _ _ hcsv hread himportable clock =>
      importTargets_law hcsv hread himportable clock actor s⟩

/-! ## A secret in the last column -/

/-- One row, whose cells after the account are these. -/
def oneRow (cells : String) : String :=
  "aws_account_id,role_arn,external_id,name,regions\n111111111111," ++ cells ++ "\n"

def noTargets : TargetStore := ⟨.empty, .empty⟩

def inPlace (secret : String) : String := oneRow ("role," ++ secret ++ ",prod,eu-west-1")

/-- Two secrets in the external_id column are not told apart, and an import of one keeps the law. -/
theorem secrets_in_place :
    List.Forall₂ SameRejection (Csv.read (inPlace "s3cret")).rows
      (Csv.read (inPlace "hunter2")).rows ∧
    ∃ s' res, importTargets (fun _ => 0) "machine:ops" noTargets (.text (inPlace "s3cret")) =
      .ok (s', res) ∧
        ImportLaw (.text (inPlace "s3cret")) (Csv.read (inPlace "s3cret")).rows noTargets s'
          res := by
  constructor
  · have hread : importable (Csv.read (inPlace "s3cret")) = true := by decide +kernel
    have hsame : response (fun _ => 0) "machine:ops" noTargets (.text (inPlace "s3cret")) =
        response (fun _ => 0) "machine:ops" noTargets (.text (inPlace "hunter2")) := by
      decide +kernel
    exact ((import_reveals_iff "machine:ops" noTargets).1 (.text (inPlace "s3cret"))
      (.text (inPlace "hunter2")) _ _ rfl rfl (by decide +kernel) _ _).1 hsame hread
  · exact (import_reveals_iff "machine:ops" noTargets).2 (.text (inPlace "s3cret")) _ rfl
      (by decide +kernel) (by decide +kernel) (fun _ => 0)

def shifted (secret : String) : String := oneRow ("role,ext,prod," ++ secret)

/-- The same two in the regions column are. -/
theorem secrets_shifted : ¬ ∀ (request request' : Request) (text text' : String),
    request.csvText = .ok text → request'.csvText = .ok text' →
      Alike (Csv.read text) (Csv.read text') →
        response (fun _ => 0) "machine:ops" noTargets request =
          response (fun _ => 0) "machine:ops" noTargets request' := by
  intro h
  have hsame := h (.text (shifted "s3cret")) (.text (shifted "hunter2")) _ _ rfl rfl
    (by decide +kernel)
  revert hsame
  decide +kernel

end CollectTargets

end Constat
