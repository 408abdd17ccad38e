import Constat.WorkItems

/-!
# SqsReceive

`SQSQueue.receive` of `collect_queue.py`: the bodies of a batch of messages are decoded one by one; a
body that raises a `KeyError` or a `ValueError` is acked away, any other exception leaves `receive`
and takes the batch with it.

* `reading`       — the work item that a message is meant to be, if it is one.
* `Refused`       — the bodies that the decoder refuses in the way its handler expects.
* `contained_iff` — a batch is contained exactly when each of its messages is well formed or refused.
-/

namespace Constat

namespace SqsReceive

open Py WorkItems

/-- A message; the receive count is not there when SQS leaves the attribute out. -/
structure Message where
  receiptHandle : String
  body : String
  receiveCount : Option Nat

/-- A receipt handle belongs to one message of one delivery. -/
structure MessageBatch where
  messages : List Message
  nodup : (messages.map Message.receiptHandle).Nodup

structure Received where
  receipt : String
  item : Decoded
  attempts : Nat

def received (m : Message) (item : Decoded) : Received :=
  ⟨m.receiptHandle, item, m.receiveCount.getD 1⟩

/-- `except (KeyError, ValueError, json.JSONDecodeError)`. -/
def caught (e : Exc) : Bool := e = .keyError ∨ e = .valueError ∨ e = .jsonDecodeError

/-- The receipts acked on the way, and what the loop returns or raises. -/
def receive (levels : Nat) : List Message → List String × Except Exc (List Received)
  | [] => ([], .ok [])
  | m :: ms =>
    match decode levels m.body with
    | .ok item => ((receive levels ms).1, (receive levels ms).2.map (received m item :: ·))
    | .error e =>
      if caught e then (m.receiptHandle :: (receive levels ms).1, (receive levels ms).2)
      else ([], .error e)

/-! ## What a message says -/

section

variable (fields : List (String × Json))

def textOf (key : String) : Option String :=
  match Json.get? fields key with
  | some (.str s) => some s
  | _ => none

def optTextOf (key : String) : Option (Option String) :=
  match Json.get? fields key with
  | none => some none
  | some .null => some none
  | some (.str s) => some (some s)
  | _ => none

def asText : Json → Option String
  | .str s => some s
  | _ => none

/-- Nothing or a list of texts. -/
def selectionOf : Option (Option (List String)) :=
  match (Json.get? fields "resource_types").getD .null with
  | .list [] => some none
  | .list xs => (xs.mapM asText).map some
  | v => if truthy v then none else some none

def flagOf (key : String) : Bool := truthy ((Json.get? fields key).getD (.bool false))

end

def reading : Json → Option WorkItem
  | .obj fields => do
    let jobId ← (textOf fields "job_id").bind Uuid.parse
    let awsAccountId ← textOf fields "aws_account_id"
    let region ← textOf fields "region"
    let roleArn ← optTextOf fields "role_arn"
    let externalId ← optTextOf fields "external_id"
    let name ← optTextOf fields "name"
    let resourceTypes ← selectionOf fields
    return ⟨jobId, awsAccountId, region, roleArn, externalId, name, resourceTypes,
      flagOf fields "force", flagOf fields "dry_run"⟩
  | _ => none

def readBody (levels : Nat) (body : String) : Option WorkItem :=
  (loads levels body).toOption.bind reading

def WellFormed (levels : Nat) (m : Message) : Prop := (readBody levels m.body).isSome = true

instance (levels : Nat) (m : Message) : Decidable (WellFormed levels m) :=
  inferInstanceAs (Decidable (_ = true))

/-- An object without a job id, with a text for one that is no UUID, or with a good one and without
an account or a region. -/
def RefusedDict (fields : List (String × Json)) : Prop :=
  match Json.get? fields "job_id" with
  | none => True
  | some (.str s) => Uuid.parse s = none ∨ Json.get? fields "aws_account_id" = none ∨
      Json.get? fields "region" = none
  | some _ => False

/-- A body that is no JSON text, or an object with such fields. -/
def Refused (levels : Nat) (m : Message) : Prop :=
  match loads levels m.body with
  | .error e => caught e = true
  | .ok (.obj fields) => RefusedDict fields
  | .ok _ => False

/-- No exception; the well-formed messages come out as the items they are, and the others are
acked. -/
def Contained (levels : Nat) (ms : List Message) : Prop :=
  receive levels ms =
    ((ms.filter fun m => ¬ WellFormed levels m).map (·.receiptHandle),
      .ok (ms.filterMap fun m => (readBody levels m.body).map fun x => received m (ofItem x)))

/-! ## The decoder on a well-formed body -/

section

variable {fields : List (String × Json)} {key : String}

theorem textOf_eq_some {s : String} :
    textOf fields key = some s ↔ Json.get? fields key = some (.str s) := by
  unfold textOf
  split
  · rename_i s' h
    simp [h]
  · rename_i h
    simp only [reduceCtorEq, false_iff]
    exact fun h' => h s h'

theorem getD_of_optTextOf {o : Option String} (h : optTextOf fields key = some o) :
    (Json.get? fields key).getD .null = optText o := by
  unfold optTextOf at h
  split at h
  · rename_i hget
    rw [hget, ← Option.some.inj h]
    rfl
  · rename_i hget
    rw [hget, ← Option.some.inj h]
    rfl
  · rename_i s hget
    rw [hget, ← Option.some.inj h]
    rfl
  · cases h

theorem map_str_of_mapM {xs : List Json} : ∀ {l : List String}, xs.mapM asText = some l →
    xs = l.map .str := by
  induction xs with
  | nil =>
    intro l h
    rw [List.mapM_nil] at h
    rw [← Option.some.inj h]
    rfl
  | cons x xs ih =>
    intro l h
    rw [List.mapM_cons] at h
    cases x with
    | str s =>
      cases hrest : xs.mapM asText with
      | none => simp [asText, hrest] at h
      | some l' =>
        simp only [asText, hrest, Option.pure_def, Option.bind_eq_bind, Option.bind_some,
          Option.some.injEq] at h
        rw [← h, List.map_cons, ih hrest]
    | _ => simp [asText] at h

theorem resourceTypesOf_of_selectionOf {sel : Option (List String)}
    (h : selectionOf fields = some sel) :
    resourceTypesOf ((Json.get? fields "resource_types").getD .null) =
      .ok (sel.map fun l => l.map .str) := by
  unfold selectionOf at h
  generalize (Json.get? fields "resource_types").getD .null = v at h
  split at h
  · rw [← Option.some.inj h]
    rfl
  · rename_i xs hne
    obtain ⟨l, hl, rfl⟩ := Option.map_eq_some_iff.1 h
    have htruthy : truthy (.list xs) = true := by
      cases xs with
      | nil => exact absurd rfl hne
      | cons x xs => rfl
    rw [resourceTypesOf, if_pos htruthy, tupleOf, map_str_of_mapM hl]
    rfl
  · split_ifs at h with htruthy
    rw [← Option.some.inj h, resourceTypesOf, if_neg htruthy]
    rfl

theorem fromDict_of_reading {v : Json} {x : WorkItem} (h : reading v = some x) :
    fromDict v = .ok (ofItem x) := by
  cases v with
  | obj fields =>
    simp only [reading, Option.bind_eq_bind, Option.bind_eq_some_iff, Option.pure_def,
      Option.some.injEq] at h
    obtain ⟨jobId, ⟨s, hs, hid⟩, account, haccount, region, hregion, role, hrole, external,
      hexternal, name, hname, sel, hsel, rfl⟩ := h
    have huuid : uuidOf (.str s) = .ok jobId := by rw [uuidOf, hid]; rfl
    have htypes := resourceTypesOf_of_selectionOf hsel
    simp only [fromDict, item, getOr, textOf_eq_some.1 hs, textOf_eq_some.1 haccount,
      textOf_eq_some.1 hregion, getD_of_optTextOf hrole, getD_of_optTextOf hexternal,
      getD_of_optTextOf hname, Option.elim_some, bind, Except.bind, huuid, htypes]
    rfl
  | _ => cases h

theorem decode_of_readBody {levels : Nat} {body : String} {x : WorkItem}
    (h : readBody levels body = some x) : decode levels body = .ok (ofItem x) := by
  unfold readBody at h
  obtain ⟨v, hv, hread⟩ := Option.bind_eq_some_iff.1 h
  cases hloads : loads levels body with
  | error e => rw [hloads] at hv; cases hv
  | ok v' =>
    rw [hloads] at hv
    cases hv
    simp only [decode, hloads, bind, Except.bind]
    exact fromDict_of_reading hread

/-! ## The bodies it refuses -/

theorem resourceTypesOf_cases (v : Json) :
    (∃ o, resourceTypesOf v = .ok o) ∨ resourceTypesOf v = .error .typeError := by
  unfold resourceTypesOf
  split
  · cases v <;> simp [tupleOf, Except.map]
  · exact .inl ⟨none, rfl⟩

theorem fromDict_caught_iff :
    (∃ e, fromDict (.obj fields) = .error e ∧ caught e = true) ↔ RefusedDict fields := by
  unfold RefusedDict
  simp only [fromDict, item, getOr, bind, Except.bind]
  cases hjob : Json.get? fields "job_id" with
  | none => simp [caught]
  | some v =>
    cases v with
    | str s =>
      cases hs : Uuid.parse s with
      | none => simp [uuidOf, hs, caught]
      | some id =>
        cases haccount : Json.get? fields "aws_account_id" with
        | none => simp [uuidOf, hs, caught]
        | some account =>
          cases hregion : Json.get? fields "region" with
          | none => simp [uuidOf, hs, caught]
          | some region =>
            rcases resourceTypesOf_cases ((Json.get? fields "resource_types").getD .null) with
              ⟨o, ho⟩ | herr
            · simp [uuidOf, hs, ho, pure, Except.pure]
            · simp [uuidOf, hs, herr, caught]
    | _ => simp [uuidOf, caught]

end

theorem decode_caught_iff {levels : Nat} {m : Message} :
    (∃ e, decode levels m.body = .error e ∧ caught e = true) ↔ Refused levels m := by
  unfold Refused
  simp only [decode, bind, Except.bind]
  cases loads levels m.body with
  | error e => simp
  | ok v =>
    cases v with
    | obj fields => exact fromDict_caught_iff
    | _ => simp [fromDict, item, bind, Except.bind, caught]

/-! ## Batches -/

/-- Nothing was raised: every body was decoded or refused. -/
theorem receive_ok {levels : Nat} {ms : List Message} {out : List Received}
    (h : (receive levels ms).2 = .ok out) :
    (∀ m ∈ ms, (∃ item, decode levels m.body = .ok item) ∨ Refused levels m) ∧
      ∀ m ∈ ms, ∀ item, decode levels m.body = .ok item → m.receiptHandle ∈ out.map (·.receipt) := by
  induction ms generalizing out with
  | nil => simp
  | cons m ms ih =>
    simp only [receive] at h
    cases hdecode : decode levels m.body with
    | ok item =>
      simp only [hdecode] at h
      cases hrest : (receive levels ms).2 with
      | error e => rw [hrest] at h; cases h
      | ok out' =>
        rw [hrest] at h
        obtain rfl := Except.ok.inj h
        obtain ⟨hall, hout⟩ := ih hrest
        refine ⟨fun m' hm' => ?_, fun m' hm' item' hitem' => ?_⟩
        · rcases List.mem_cons.1 hm' with rfl | hm'
          · exact .inl ⟨item, hdecode⟩
          · exact hall m' hm'
        · rcases List.mem_cons.1 hm' with rfl | hm'
          · exact List.mem_cons_self
          · exact List.mem_cons_of_mem _ (hout m' hm' item' hitem')
    | error e =>
      simp only [hdecode] at h
      split_ifs at h with hcaught
      obtain ⟨hall, hout⟩ := ih h
      refine ⟨fun m' hm' => ?_, fun m' hm' item' hitem' => ?_⟩
      · rcases List.mem_cons.1 hm' with rfl | hm'
        · exact .inr (decode_caught_iff.1 ⟨e, hdecode, hcaught⟩)
        · exact hall m' hm'
      · rcases List.mem_cons.1 hm' with rfl | hm'
        · rw [hdecode] at hitem'
          cases hitem'
        · exact hout m' hm' item' hitem'

theorem contained_of_all {levels : Nat} {ms : List Message}
    (h : ∀ m ∈ ms, WellFormed levels m ∨ Refused levels m) : Contained levels ms := by
  unfold Contained
  induction ms with
  | nil => rfl
  | cons m ms ih =>
    have hrest := ih fun m' hm' => h m' (List.mem_cons_of_mem m hm')
    simp only [receive]
    by_cases hwell : WellFormed levels m
    · obtain ⟨x, hx⟩ := Option.isSome_iff_exists.1 hwell
      simp only [decode_of_readBody hx, hrest, List.filter_cons, List.filterMap_cons, hwell, hx,
        not_true_eq_false, decide_false, Bool.false_eq_true, if_false, Option.map_some]
      rfl
    · have hrefused := (h m List.mem_cons_self).resolve_left hwell
      obtain ⟨e, he, hcaught⟩ := decode_caught_iff.2 hrefused
      have hnone : readBody levels m.body = none := by
        simpa [WellFormed] using hwell
      simp only [he, hcaught, hrest, List.filter_cons, List.filterMap_cons, hwell, hnone,
        not_false_eq_true, decide_true, if_true, Option.map_none, List.map_cons]

theorem contained_iff (levels : Nat) (batch : MessageBatch) :
    Contained levels batch.messages ↔
      ∀ m ∈ batch.messages, WellFormed levels m ∨ Refused levels m := by
  refine ⟨fun h m hm => ?_, contained_of_all⟩
  have hok := congrArg Prod.snd h
  obtain ⟨hall, hout⟩ := receive_ok hok
  rcases hall m hm with ⟨item, hitem⟩ | hrefused
  · left
    -- the receipt of what was decoded is the receipt of a well-formed message, so of this one
    obtain ⟨r, hr, hreceipt⟩ := List.mem_map.1 (hout m hm item hitem)
    obtain ⟨m', hm', hread⟩ := List.mem_filterMap.1 hr
    obtain ⟨x, hx, rfl⟩ := Option.map_eq_some_iff.1 hread
    have hsame : m' = m := List.inj_on_of_nodup_map batch.nodup hm' hm hreceipt
    rw [← hsame]
    exact Option.isSome_iff_exists.2 ⟨x, hx⟩
  · exact .inr hrefused

/-- A body that is JSON, but no object. -/
def listMessage : Message := ⟨"first", "[]", some 1⟩

def bodyWith (account : String) : String :=
  "\x7b\"job_id\": \"1b4e28ba-2fa1-11d2-883f-0016d3cca427\", \"aws_account_id\": " ++ account ++
    ", \"region\": \"eu-west-1\"\x7d"

def goodMessage : Message := ⟨"second", bodyWith "\"111111111111\"", some 1⟩

def numberMessage : Message := ⟨"third", bodyWith "111111111111", none⟩

def poisonedBatch : MessageBatch where
  messages := [listMessage, goodMessage]
  nodup := by decide

/-- One exception loses the well-formed sibling; a number for an account is handed to the worker. -/
theorem poisoned_batch_lost : ¬ Contained 2 poisonedBatch.messages ∧ WellFormed 2 goodMessage ∧
    receive 2 poisonedBatch.messages = ([], .error .typeError) ∧
    (readBody 2 numberMessage.body = none ∧ ∃ item, decode 2 numberMessage.body = .ok item ∧
      item.awsAccountId = .int 111111111111) := by
  have hlist : decode 2 listMessage.body = .error .typeError := by decide +kernel
  have hlost : receive 2 poisonedBatch.messages = ([], .error .typeError) := by
    simp only [poisonedBatch, receive, hlist, caught]
    rfl
  have hgood : WellFormed 2 goodMessage := by decide +kernel
  have hnumber : (decode 2 numberMessage.body).toOption.map Decoded.awsAccountId =
      some (.int 111111111111) := by decide +kernel
  refine ⟨fun h => ?_, hgood, hlost, by decide +kernel, ?_⟩
  · rw [Contained, hlost] at h
    cases (Prod.mk.inj h).2
  · cases hdecode : decode 2 numberMessage.body with
    | error e => rw [hdecode] at hnumber; cases hnumber
    | ok item =>
      rw [hdecode] at hnumber
      exact ⟨item, rfl, Option.some.inj hnumber⟩

end SqsReceive

end Constat
