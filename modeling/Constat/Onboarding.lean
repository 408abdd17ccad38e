import Mathlib.Data.List.TakeWhile
import Constat.Collector
import Constat.CollectTargets
import Constat.Py.CsvWriter

/-!
# Onboarding

`list_org_accounts` of `collectors/organizations.py` and `cli/onboard.py`: the active accounts of an
organization, printed as a CSV for `POST /collect/targets/import`.

* `listOrgAccounts` — the active accounts of all pages, or what AWS raises.
* `main`            — the exit code and what goes to stdout.
* `cleanOf`         — the target a printed line stands for.
* `file_onboards`   — importing what was printed stores that target for every active account whose
                      id has 12 digits, with the placeholder as its external id unless ids were
                      generated, and rejects the other lines.
-/

namespace Constat

namespace Onboarding

open CollectTargets Py

/-! ## Discovery -/

/-- An account as `organizations:ListAccounts` has it. -/
structure OrgAccount where
  id : String
  status : Option String
  name : Option String
  email : Option String
deriving DecidableEq

structure ListedAccount where
  awsAccountId : String
  name : String
  email : String
deriving DecidableEq

/-- What AWS raises; `boto` are ClientError and BotoCoreError. -/
inductive DiscoveryError where
  | boto (e : PyError)
  | raised (e : PyError)
deriving DecidableEq

/-- `assumeRole` is what STS raises; the pages may end with an error too. -/
structure Organization where
  assumeRole : Option DiscoveryError
  pages : List (List OrgAccount)
  pagesError : Option DiscoveryError

def listed (account : OrgAccount) : Option ListedAccount :=
  if account.status ≠ some "ACTIVE" then none
  else some ⟨account.id, account.name.getD "", account.email.getD ""⟩

def externalIdRequired : DiscoveryError := .raised ⟨"ValueError",
  "TargetAccount organizations-management: role_arn is set but external_id is empty — refusing " ++
  "to assume a cross-account role without an ExternalId (confused-deputy risk)."⟩

def listOrgAccounts (org : Organization) (externalId : String) :
    Except DiscoveryError (List ListedAccount) :=
  if externalId = "" then .error externalIdRequired
  else
    match org.assumeRole, org.pagesError with
    | some e, _ => .error e
    | none, some e => .error e
    | none, none => .ok (org.pages.flatMap fun page => page.filterMap listed)

/-! ## The command -/

structure Args where
  orgRoleArn : String
  externalId : String
  roleTemplate : String
  generateExternalIds : Bool

def accountIdField : String := "\x7baccount_id\x7d"

def defaultRoleTemplate : String := "arn:aws:iam::" ++ accountIdField ++ ":role/constat-collector"

def externalIdPlaceholder : String := "REPLACE_ME"

/-- `skip` characters belong to an occurrence that was replaced. -/
def replaceFrom (old new : List Char) : Nat → List Char → List Char
  | _, [] => []
  | skip + 1, _ :: cs => replaceFrom old new skip cs
  | 0, c :: cs =>
    if old.isPrefixOf (c :: cs) then new ++ replaceFrom old new (old.length - 1) cs
    else c :: replaceFrom old new 0 cs

/-- `s.replace(old, new)`. -/
def replace (s old new : String) : String :=
  String.ofList (replaceFrom old.toList new.toList 0 s.toList)

def header : List String := ["aws_account_id", "role_arn", "external_id", "name"]

/-- The account with the external id printed for it; `token` is what `token_urlsafe` returns. -/
def identified (args : Args) (token : Nat → String) (accounts : List ListedAccount) :
    List (ListedAccount × String) :=
  accounts.zipIdx.map fun (account, i) =>
    (account, if args.generateExternalIds then token i else externalIdPlaceholder)

def line (args : Args) (account : ListedAccount × String) : List String :=
  [account.1.awsAccountId, replace args.roleTemplate accountIdField account.1.awsAccountId,
    account.2, account.1.name]

structure Exit where
  code : Nat
  stdout : String
deriving DecidableEq

def main (args : Args) (org : Organization) (token : Nat → String) : Except PyError Exit :=
  if !contains accountIdField.toList args.roleTemplate.toList then .ok ⟨1, ""⟩
  else
    match listOrgAccounts org args.externalId with
    | .error (.boto _) => .ok ⟨2, ""⟩
    | .error (.raised e) => .error e
    | .ok accounts =>
      .ok ⟨0, Csv.written .newline (header :: (identified args token accounts).map (line args))⟩

/-! ## Spaces -/

/-- A text without spaces is stripped of none. -/
theorem strip_of_none {cs : List Char} (h : ∀ c ∈ cs, isSpace c = false) : strip cs = cs := by
  have hkeep : ∀ l : List Char, (∀ c ∈ l, isSpace c = false) → l.dropWhile isSpace = l := by
    intro l hl
    rw [List.dropWhile_eq_self_iff]
    intro hpos
    simp [hl l[0] (List.getElem_mem hpos)]
  rw [strip, hkeep cs h, hkeep _ fun c hc => h c (List.mem_reverse.1 hc), List.reverse_reverse]

theorem strip_ne_nil {cs : List Char} {c : Char} (hc : c ∈ cs) (hspace : isSpace c = false) :
    strip cs ≠ [] := by
  intro h
  rw [strip, List.reverse_eq_nil_iff, List.dropWhile_eq_nil_iff] at h
  have hdropped : cs.dropWhile isSpace = [] := by
    by_contra hne
    have hhead := List.head_dropWhile_not isSpace hne
    have hmem := h _ (List.mem_reverse.2 (List.head_mem hne))
    rw [hhead] at hmem
    cases hmem
  rw [List.dropWhile_eq_nil_iff] at hdropped
  rw [hdropped c hc] at hspace
  cases hspace

theorem isSpace_of_decimal {c : Char} (h : (decimalValue c).isSome = true) : isSpace c = false := by
  rw [decimalValue, Option.isSome_map] at h
  by_contra hspace
  rw [Bool.not_eq_false, isSpace, decide_eq_true_eq] at hspace
  generalize c.toNat = n at h hspace
  revert h
  revert n
  decide

/-! ## The role of an account -/

/-- What replaces a text stands where that text was. -/
theorem infix_replaceFrom {old cs : List Char} (new : List Char) (h : contains old cs = true)
    (hne : old ≠ []) :
    ∃ before rest, replaceFrom old new 0 cs = before ++ (new ++ rest) := by
  induction cs with
  | nil => simp [contains, after, hne] at h
  | cons c cs ih =>
    rw [contains, after] at h
    rw [replaceFrom]
    by_cases hprefix : old.isPrefixOf (c :: cs) = true
    · rw [if_pos hprefix]
      exact ⟨[], _, rfl⟩
    · rw [if_neg hprefix] at h ⊢
      obtain ⟨before, rest, hrest⟩ := ih h
      exact ⟨c :: before, rest, by rw [hrest, List.cons_append]⟩

theorem accountId_mem {id : String} (h : isAccountId (strip id.toList) = true) :
    ∃ c ∈ id.toList, (decimalValue c).isSome = true := by
  rw [isAccountId, Bool.and_eq_true, decide_eq_true_eq, List.all_eq_true] at h
  have hmem : ∀ c ∈ strip id.toList, c ∈ id.toList := by
    intro c hc
    rw [strip, List.mem_reverse] at hc
    have hkept := (List.dropWhile_sublist _).mem hc
    exact (List.dropWhile_sublist _).mem (List.mem_reverse.1 hkept)
  cases hstrip : strip id.toList with
  | nil => rw [hstrip] at h; cases h.1
  | cons c cs =>
    rw [hstrip] at h hmem
    exact ⟨c, hmem c List.mem_cons_self, h.2 c List.mem_cons_self⟩

theorem role_ne_nil {template id : String}
    (htemplate : contains accountIdField.toList template.toList = true)
    (hid : isAccountId (strip id.toList) = true) :
    strip (replace template accountIdField id).toList ≠ [] := by
  obtain ⟨before, rest, hreplace⟩ := infix_replaceFrom id.toList htemplate (by decide)
  obtain ⟨c, hc, hdecimal⟩ := accountId_mem hid
  have hmem : c ∈ (replace template accountIdField id).toList := by
    rw [replace, String.toList_ofList, hreplace, List.mem_append, List.mem_append]
    exact .inr (.inl hc)
  exact strip_ne_nil hmem (isSpace_of_decimal hdecimal)

/-! ## A printed line -/

def urlSafeAlphabet : List Char :=
  "ABCDEFGHIJKLMNOPQRSTUVWXYZabcdefghijklmnopqrstuvwxyz0123456789-_".toList

/-- What `token_urlsafe(24)` returns. -/
structure UrlSafe (token : String) : Prop where
  length : token.toList.length = 32
  alphabet : ∀ c ∈ token.toList, c ∈ urlSafeAlphabet

theorem isSpace_of_urlSafe {c : Char} (h : c ∈ urlSafeAlphabet) : isSpace c = false := by
  have hall : urlSafeAlphabet.all (fun c => !isSpace c) = true := by decide
  simpa using List.all_eq_true.1 hall c h

/-- The target a printed line stands for. -/
def cleanOf (args : Args) (account : ListedAccount × String) : CleanRow where
  awsAccountId := String.ofList (strip account.1.awsAccountId.toList)
  roleArn := String.ofList
    (strip (replace args.roleTemplate accountIdField account.1.awsAccountId).toList)
  externalId := account.2
  name := nonempty (strip account.1.name.toList)
  regions := none

def accepted (account : ListedAccount × String) : Bool :=
  isAccountId (strip account.1.awsAccountId.toList)

theorem cell_line (args : Args) (account : ListedAccount × String) :
    let row := Csv.dictRow header (line args account)
    cell row "aws_account_id" = strip account.1.awsAccountId.toList ∧
    cell row "role_arn" =
      strip (replace args.roleTemplate accountIdField account.1.awsAccountId).toList ∧
    cell row "external_id" = strip account.2.toList ∧
    cell row "name" = strip account.1.name.toList ∧ cell row "regions" = [] := by
  have hrow : Csv.dictRow header (line args account) =
      (((((Dict.empty : Csv.Row).set "aws_account_id" (some account.1.awsAccountId)).set "role_arn"
        (some (replace args.roleTemplate accountIdField account.1.awsAccountId))).set "external_id"
        (some account.2)).set "name" (some account.1.name)) := rfl
  have hnone : (Dict.empty : Csv.Row).get? "regions" = none := rfl
  rw [hrow]
  simp [cell, Dict.get?_set, hnone, strip]

/-- An external id as it is printed: it is not blank, and nothing of it is stripped. -/
structure Printed (externalId : String) : Prop where
  present : externalId.toList ≠ []
  noSpace : ∀ c ∈ externalId.toList, isSpace c = false
  fits : externalId.toList.length ≤ Csv.fieldLimit

theorem printed_urlSafe {token : String} (h : UrlSafe token) : Printed token where
  present := by
    intro hnil
    have := h.length
    rw [hnil] at this
    cases this
  noSpace c hc := isSpace_of_urlSafe (h.alphabet c hc)
  fits := by
    rw [h.length, Csv.fieldLimit]
    decide

theorem printed_placeholder : Printed externalIdPlaceholder where
  present := by decide
  noSpace := by
    have hall : externalIdPlaceholder.toList.all (fun c => !isSpace c) = true := by decide
    intro c hc
    simpa using List.all_eq_true.1 hall c hc
  fits := by decide

theorem checkRow_line {args : Args} {account : ListedAccount × String}
    (htemplate : contains accountIdField.toList args.roleTemplate.toList = true)
    (hid : Printed account.2) :
    checkRow (Csv.dictRow header (line args account)) =
      if accepted account then .ok (cleanOf args account) else .error .accountId := by
  obtain ⟨haccount, hrole, hexternal, hname, hregions⟩ := cell_line args account
  have hsafe : strip account.2.toList = account.2.toList := strip_of_none hid.noSpace
  have hpresent := hid.present
  simp only [checkRow, haccount, hrole, hexternal, hname, hregions, hsafe, accepted]
  by_cases hvalid : isAccountId (strip account.1.awsAccountId.toList) = true
  · have hrole := role_ne_nil htemplate hvalid
    have hknown : unknownRegions [] = [] := rfl
    simp [hvalid, hrole, hpresent, cleanOf, nonempty, hknown]
  · simp [hvalid]

/-! ## The import -/

/-- The target that is stored of an account: that of its last line. -/
def targetOf (args : Args) (printed : List (ListedAccount × String)) (account : String) :
    Option CleanRow :=
  (((printed.filter accepted).map (cleanOf args)).filter (·.awsAccountId = account)).getLast?

/-- What importing the printed lines leaves behind. -/
structure Onboarded (args : Args) (printed : List (ListedAccount × String)) (s s' : TargetStore)
    (res : ImportTargetsResponse) : Prop where
  counted : res.imported + res.updated = (printed.filter accepted).length
  rejected : res.rejected.map (·.reason) =
    (printed.filter fun account => !accepted account).map fun _ => Reason.accountId.text
  stored : ∀ account, held s'.targets account =
    ((targetOf args printed account).map fun clean => (clean, none)).or (held s.targets account)

/-- No cell is longer than a reader takes. -/
structure Fits (args : Args) (account : ListedAccount) : Prop where
  id : account.awsAccountId.toList.length ≤ Csv.fieldLimit
  role : (replace args.roleTemplate accountIdField account.awsAccountId).toList.length ≤
    Csv.fieldLimit
  name : account.name.toList.length ≤ Csv.fieldLimit

instance (args : Args) (account : ListedAccount) : Decidable (Fits args account) :=
  decidable_of_iff (_ ∧ _ ∧ _)
    ⟨fun h => ⟨h.1, h.2.1, h.2.2⟩, fun h => ⟨h.id, h.role, h.name⟩⟩

section

variable {args : Args} {printed : List (ListedAccount × String)} {rows : List (Nat × Csv.Row)}
  (hchecks : ∀ account ∈ printed, checkRow (Csv.dictRow header (line args account)) =
    if accepted account then .ok (cleanOf args account) else .error .accountId)
  (hrows : rows.map (·.2) = (printed.map (line args)).map (Csv.dictRow header))

include hchecks hrows

theorem acceptedRows_printed :
    rows.filterMap acceptedRow = (printed.filter accepted).map (cleanOf args) := by
  have hsnd : rows.filterMap acceptedRow =
      (rows.map (·.2)).filterMap fun row => (checkRow row).toOption := by
    rw [List.filterMap_map]
    rfl
  rw [hsnd, hrows, List.map_map, List.filterMap_map]
  clear hsnd hrows
  induction printed with
  | nil => rfl
  | cons account printed ih =>
    rw [List.forall_mem_cons] at hchecks
    rw [List.filterMap_cons, List.filter_cons, ih hchecks.2]
    simp only [Function.comp_apply, hchecks.1]
    cases accepted account <;> rfl

theorem rejections_printed : (rows.filterMap rejection).map (·.reason) =
    (printed.filter fun account => !accepted account).map fun _ => Reason.accountId.text := by
  have hsnd : (rows.filterMap rejection).map (·.reason) =
      (rows.map (·.2)).filterMap fun row => (rejection (0, row)).map (·.reason) := by
    rw [List.filterMap_map, List.map_filterMap]
    refine List.filterMap_congr fun row _ => ?_
    rw [Function.comp_apply, rejection, rejection]
    cases checkRow row.2 <;> rfl
  rw [hsnd, hrows, List.map_map, List.filterMap_map]
  clear hsnd hrows
  induction printed with
  | nil => rfl
  | cons account printed ih =>
    rw [List.forall_mem_cons] at hchecks
    rw [List.filterMap_cons, List.filter_cons, ih hchecks.2]
    simp only [Function.comp_apply, rejection, hchecks.1]
    cases accepted account <;> rfl

end

theorem main_printed {args : Args} {org : Organization} {token : Nat → String} {csv : String}
    (h : main args org token = .ok ⟨0, csv⟩) :
    contains accountIdField.toList args.roleTemplate.toList = true ∧
    ∃ accounts, listOrgAccounts org args.externalId = .ok accounts ∧
      csv = Csv.written .newline (header :: (identified args token accounts).map (line args)) := by
  rw [main] at h
  split at h
  · simp at h
  · rename_i htemplate
    refine ⟨by simpa using htemplate, ?_⟩
    split at h
    · simp at h
    · cases h
    · rename_i accounts haccounts
      exact ⟨accounts, haccounts, by simpa using h.symm⟩

/-- What the command prints can be imported into any store. -/
theorem file_onboards {args : Args} {org : Organization} {token : Nat → String} {csv : String}
    (hmain : main args org token = .ok ⟨0, csv⟩)
    (htoken : args.generateExternalIds = true → ∀ i, UrlSafe (token i))
    (hfits : ∀ page ∈ org.pages, ∀ account ∈ page.filterMap listed, Fits args account) :
    ∃ accounts, listOrgAccounts org args.externalId = .ok accounts ∧
      ∀ clock actor s, ∃ s' res, importTargets clock actor s (.text csv) = .ok (s', res) ∧
        Onboarded args (identified args token accounts) s s' res := by
  obtain ⟨htemplate, accounts, haccounts, rfl⟩ := main_printed hmain
  refine ⟨accounts, haccounts, fun clock actor s => ?_⟩
  have hlisted : ∀ account ∈ accounts, Fits args account := by
    rw [listOrgAccounts] at haccounts
    split at haccounts
    · cases haccounts
    · split at haccounts
      · cases haccounts
      · cases haccounts
      · cases haccounts
        intro account hmem
        obtain ⟨page, hpage, hmem⟩ := List.mem_flatMap.1 hmem
        exact hfits page hpage account hmem
  have hprinted : ∀ account ∈ identified args token accounts,
      Fits args account.1 ∧ Printed account.2 := by
    intro account hmem
    obtain ⟨⟨listed, i⟩, hlist, rfl⟩ := List.mem_map.1 hmem
    refine ⟨hlisted _ (List.fst_mem_of_mem_zipIdx hlist), ?_⟩
    show Printed (if args.generateExternalIds then token i else externalIdPlaceholder)
    split
    · rename_i hgenerate
      exact printed_urlSafe (htoken hgenerate i)
    · exact printed_placeholder
  generalize identified args token accounts = printed at hprinted ⊢
  have hlen : ∀ row ∈ header :: printed.map (line args), ∀ cell ∈ row,
      cell.toList.length ≤ Csv.fieldLimit := by
    rw [List.forall_mem_cons]
    refine ⟨by decide, fun row hrow => ?_⟩
    obtain ⟨account, hmem, rfl⟩ := List.mem_map.1 hrow
    obtain ⟨hfit, hid⟩ := hprinted account hmem
    simp [line, hfit.id, hfit.role, hfit.name, hid.fits]
  have hne : ∀ row ∈ printed.map (line args), row ≠ [] := by
    intro row hrow
    obtain ⟨account, _, rfl⟩ := List.mem_map.1 hrow
    simp [line]
  obtain ⟨hnames, hrows⟩ := Csv.rows_written .newline hlen hne
  obtain ⟨_, hread⟩ := Csv.read_written .newline hlen
  have hchecks : ∀ account ∈ printed, checkRow (Csv.dictRow header (line args account)) =
      if accepted account then .ok (cleanOf args account) else .error .accountId :=
    fun account hmem => checkRow_line htemplate (hprinted account hmem).2
  have himportable : importable (Csv.read (Csv.written .newline
      (header :: printed.map (line args)))) = true := by
    rw [importable, hnames]
    decide
  generalize Csv.written .newline (header :: printed.map (line args)) = csv at *
  have hcsv : (Request.text csv).csvText = .ok csv := rfl
  have hrun := importTargets_of_csv hcsv hread clock actor s
  rw [if_pos himportable] at hrun
  have hrejected : ((Csv.read csv).rows.filterMap rejection).map (·.reason) =
      (printed.filter fun account => !accepted account).map fun _ => Reason.accountId.text :=
    rejections_printed hchecks hrows
  refine ⟨_, _, hrun, ?_, ?_, fun account => ?_⟩
  · have hcounted := importRows_counted clock s.targets (Csv.read csv).rows
    have hlength := congrArg List.length hrows
    have hreasons := congrArg List.length hrejected
    have hsplit := List.length_eq_length_filter_add (l := printed) accepted
    simp only [List.length_map] at hlength hreasons
    simp only [importRows_rejected] at hcounted
    omega
  · show (importRows clock s.targets _).response.rejected.map (·.reason) = _
    rw [importRows_rejected, hrejected]
  · show held (importRows clock s.targets _).targets account = _
    rw [importRows_held, lastAccepted, acceptedRows_printed hchecks hrows, ← targetOf]
    cases targetOf args printed account <;> rfl

def fleetArgs : Args := ⟨"arn:aws:iam::111111111111:role/reader", "secret", defaultRoleTemplate, false⟩

/-- An account with a comma and a line break in its name, one that is suspended, and one without an
account id. -/
def fleet : Organization where
  assumeRole := none
  pages := [[⟨"222222222222", some "ACTIVE", some "prod, \"eu\"\nold", none⟩],
    [⟨"333333333333", some "SUSPENDED", none, none⟩, ⟨"n/a", some "ACTIVE", none, none⟩]]
  pagesError := none

def fleetCsv : String :=
  "aws_account_id,role_arn,external_id,name\n" ++
  "222222222222,arn:aws:iam::222222222222:role/constat-collector,REPLACE_ME," ++
  "\"prod, \"\"eu\"\"\nold\"\n" ++
  "n/a,arn:aws:iam::n/a:role/constat-collector,REPLACE_ME,\n"

theorem onboarded_fleet : ∃ accounts, listOrgAccounts fleet fleetArgs.externalId = .ok accounts ∧
    ∀ clock actor s, ∃ s' res, importTargets clock actor s (.text fleetCsv) = .ok (s', res) ∧
      Onboarded fleetArgs (identified fleetArgs (fun _ => "") accounts) s s' res :=
  file_onboards (by decide +kernel) (fun h => absurd h (by decide)) (by decide +kernel)

end Onboarding

end Constat
