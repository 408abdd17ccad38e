import Constat.Acks
import Constat.ChargebackRun
import Constat.Focus.Ingest

/-!
# ChargebackAcks

The acknowledgements of chargeback insights over a sequence of runs. An acknowledgement reaches the
next run's insight through a text made of some parts of the insight's bucket: the account, the
service, the label and the tag. The period and the currency are not among them when a label is
given, and the parts are joined by colons they may contain.

* `Bucket`        — what an insight is about, read from its payload.
* `Confusable`    — two buckets that get one text, by their parts.
* `Isolated`      — a run moves acknowledgements only within a bucket, and texts tell buckets apart.
* `isolated_iff`  — in every reached state a run is isolated iff it meets no confusable buckets.
-/

namespace Constat

open Runner

namespace Chargeback

/-! ## Buckets -/

structure Bucket where
  account : Option String
  service : Option String
  periodStart : Option String
  periodEnd : Option String
  billingCurrency : Option String
  tagKey : Option String
  tagValue : Option String
deriving DecidableEq

def strField (payload : List (String × Json)) (key : String) : Option String :=
  match Json.get? payload key with
  | some (.str s) => some s
  | _ => none

/-- The bucket an insight is about. -/
def bucketOf (payload : List (String × Json)) : Bucket where
  account := strField payload "account_id"
  service := strField payload "service"
  periodStart := strField payload "period_start"
  periodEnd := strField payload "period_end"
  billingCurrency := strField payload "billing_currency"
  tagKey := strField payload "tag_key"
  tagValue := strField payload "tag_value"

def bucketOfCost (agg : Focus.AggregatedCost) : Bucket where
  account := some agg.accountId
  service := some agg.displayService
  periodStart := agg.periodStart.map Date.isoformat
  periodEnd := agg.periodEnd.map Date.isoformat
  billingCurrency := some agg.billingCurrency
  tagKey := agg.tagKey
  tagValue := agg.tagValue

theorem bucketOf_insightPayload (fp : Arith) (label : String) (agg : Focus.AggregatedCost) :
    bucketOf (Focus.insightPayload fp label agg) = bucketOfCost agg := by
  obtain ⟨_, _, _, _, _, start, end_, _, key, value, _, _, _⟩ := agg
  cases start <;> cases end_ <;> cases key <;> cases value <;> rfl

/-! ### The parts of a bucket's text -/

namespace Bucket

def serviceText (b : Bucket) : String := b.service.getD ""

/-- The label given to the run, or the period when it is empty. -/
def labelText (label : String) (b : Bucket) : String :=
  if label = "" then
    match b.periodStart, b.periodEnd with
    | some start, some end_ => start ++ " → " ++ end_
    | _, _ => "all-time"
  else label

def keyText (b : Bucket) : String := b.tagKey.getD ""

def valueText (b : Bucket) : String := Focus.orStr b.tagValue "UNTAGGED"

def text (label : String) (b : Bucket) : String :=
  b.serviceText ++ ":" ++ b.labelText label ++ ":" ++ b.keyText ++ ":" ++ b.valueText

/-- The service or the tag key contains the separator. -/
def HasColon (b : Bucket) : Prop := ':' ∈ b.serviceText.toList ∨ ':' ∈ b.keyText.toList

instance (b : Bucket) : Decidable b.HasColon := inferInstanceAs (Decidable (_ ∨ _))

end Bucket

/-- Two buckets of one account have the same text: their parts are the same, whatever their
periods (under a label) and currencies; or a separator inside a part makes up for the difference. -/
def Confusable (label : String) (b b' : Bucket) : Prop :=
  b.account = b'.account ∧
    ((b.serviceText = b'.serviceText ∧ b.labelText label = b'.labelText label ∧
        b.keyText = b'.keyText ∧ b.valueText = b'.valueText) ∨
      ((b.HasColon ∨ b'.HasColon) ∧ b.text label = b'.text label))

instance (label : String) (b b' : Bucket) : Decidable (Confusable label b b') :=
  inferInstanceAs (Decidable (_ ∧ _))

/-! ## Histories -/

def runStep (fp : Arith) (env : Env) (t : Store) : Store :=
  (runChargeback fp env (.begin t)).1.close

/-- The stores that chargeback runs under one label lead to, with the operator's
acknowledgements and whatever else leaves the chargeback insights alone between them. -/
inductive Reached (fp : Arith) (label : String) : Store → Prop where
  | start {t : Store} (h : Insights.ofRule t "chargeback" = []) : Reached fp label t
  | run {t : Store} (h : Reached fp label t) (env : Env) (hlabel : env.periodLabel = label) :
      Reached fp label (runStep fp env t)
  | ack {t : Store} (h : Reached fp label t) (insightId : Uuid) (status : AckStatus)
      (ackBy : Option String) (ackAt : Option Micros) (now : Micros) :
      Reached fp label (Insights.updateAck (.begin t) insightId status ackBy ackAt now).1.commit.close
  | elsewhere {t t' : Store} (h : Reached fp label t)
      (hsame : Insights.ofRule t' "chargeback" = Insights.ofRule t "chargeback") :
      Reached fp label t'

/-- The buckets a run meets: those of the insights it replaces and of the charges it aggregates. -/
def buckets (env : Env) (t : Store) : List Bucket :=
  ((Insights.ofRule t "chargeback").map fun r => bucketOf r.payload) ++
    (accountIds env t).flatMap fun account => (aggregatesOf env t account).map bucketOfCost

/-- An insight that a run writes is acknowledged iff the one it replaces for the same bucket was,
and two buckets never share a stable id. -/
structure Isolated (fp : Arith) (env : Env) (t : Store) : Prop where
  acks : ∀ r ∈ Insights.ofRule (runStep fp env t) "chargeback",
    (Insights.ackOf r ≠ none ↔ ∃ p ∈ Insights.ofRule t "chargeback",
      bucketOf p.payload = bucketOf r.payload ∧ Insights.ackOf p ≠ none)
  ids : ∀ r ∈ Insights.ofRule t "chargeback" ++ Insights.ofRule (runStep fp env t) "chargeback",
    ∀ r' ∈ Insights.ofRule t "chargeback" ++ Insights.ofRule (runStep fp env t) "chargeback",
      bucketOf r.payload ≠ bucketOf r'.payload →
        Insights.ackSnapshotKey r ≠ Insights.ackSnapshotKey r'

/-! ## Texts -/

theorem colon_notMem_zeroPad (width n : Nat) : ':' ∉ (zeroPad width n).toList := by
  have hdigits : ':' ∉ Nat.toDigits 10 n := by
    intro h
    have hdigit : Char.isDigit ':' = true := Nat.isDigit_of_mem_toDigits (by omega) (by omega) h
    simp at hdigit
  simp [zeroPad, hdigits]

theorem colon_notMem_isoformat (d : Date) : ':' ∉ d.isoformat.toList := by
  simp [Date.isoformat, colon_notMem_zeroPad]

theorem colon_notMem_labelText (agg : Focus.AggregatedCost) :
    ':' ∉ ((bucketOfCost agg).labelText "").toList := by
  unfold Bucket.labelText
  rw [if_pos rfl]
  split
  · rename_i start end_ hstart hend
    obtain ⟨a, _, rfl⟩ := Option.map_eq_some_iff.1 hstart
    obtain ⟨b, _, rfl⟩ := Option.map_eq_some_iff.1 hend
    simp [colon_notMem_isoformat]
  · simp

theorem split_colon {a a' b b' : String} (ha : ':' ∉ a.toList) (ha' : ':' ∉ a'.toList)
    (h : a ++ (":" ++ b) = a' ++ (":" ++ b')) : a = a' ∧ b = b' :=
  Py.split_unique rfl ha ha' h

/-- Without separators in them, the text determines the parts. -/
theorem parts_of_text {label : String} {agg agg' : Focus.AggregatedCost}
    (hb : ¬ (bucketOfCost agg).HasColon) (hb' : ¬ (bucketOfCost agg').HasColon)
    (h : (bucketOfCost agg).text label = (bucketOfCost agg').text label) :
    (bucketOfCost agg).serviceText = (bucketOfCost agg').serviceText ∧
      (bucketOfCost agg).labelText label = (bucketOfCost agg').labelText label ∧
      (bucketOfCost agg).keyText = (bucketOfCost agg').keyText ∧
      (bucketOfCost agg).valueText = (bucketOfCost agg').valueText := by
  rw [Bucket.HasColon, not_or] at hb hb'
  simp only [Bucket.text, String.append_assoc] at h
  obtain ⟨hservice, h⟩ := split_colon hb.1 hb'.1 h
  have hlabel : (bucketOfCost agg).labelText label = (bucketOfCost agg').labelText label ∧
      (bucketOfCost agg).keyText ++ (":" ++ (bucketOfCost agg).valueText) =
        (bucketOfCost agg').keyText ++ (":" ++ (bucketOfCost agg').valueText) := by
    by_cases hempty : label = ""
    · rw [hempty] at h ⊢
      exact split_colon (colon_notMem_labelText agg) (colon_notMem_labelText agg') h
    · have hgiven : ∀ b : Bucket, b.labelText label = label := fun b => if_neg hempty
      rw [hgiven, hgiven, String.append_right_inj, String.append_right_inj] at h
      exact ⟨(hgiven _).trans (hgiven _).symm, h⟩
  obtain ⟨hkey, hvalue⟩ := split_colon hb.2 hb'.2 hlabel.2
  exact ⟨hservice, hlabel.1, hkey, hvalue⟩

theorem text_of_parts {label : String} {b b' : Bucket} (hservice : b.serviceText = b'.serviceText)
    (hlabel : b.labelText label = b'.labelText label) (hkey : b.keyText = b'.keyText)
    (hvalue : b.valueText = b'.valueText) : b.text label = b'.text label := by
  rw [Bucket.text, Bucket.text, hservice, hlabel, hkey, hvalue]

/-- Two buckets are confusable iff they have one account and one text. -/
theorem confusable_iff {label : String} {agg agg' : Focus.AggregatedCost} :
    Confusable label (bucketOfCost agg) (bucketOfCost agg') ↔
      agg.accountId = agg'.accountId ∧
        (bucketOfCost agg).text label = (bucketOfCost agg').text label := by
  refine and_congr Option.some_inj ⟨?_, fun h => ?_⟩
  · rintro (⟨hservice, hlabel, hkey, hvalue⟩ | ⟨_, h⟩)
    · exact text_of_parts hservice hlabel hkey hvalue
    · exact h
  · by_cases hcolon : (bucketOfCost agg).HasColon ∨ (bucketOfCost agg').HasColon
    · exact .inr ⟨hcolon, h⟩
    · rw [not_or] at hcolon
      exact .inl (parts_of_text hcolon.1 hcolon.2 h)

/-! ## The stable id of a chargeback row -/

/-- The row of an aggregate's insight. -/
structure RowOf (fp : Arith) (label : String) (agg : Focus.AggregatedCost) (r : InsightRow) :
    Prop where
  account : ∃ account, r.accountId = some account ∧ agg.accountId = Uuid.text account
  resourceId : r.resourceId = none
  payload : r.payload = Focus.insightPayload fp label agg

theorem RowOf.bucket {fp : Arith} {label : String} {agg : Focus.AggregatedCost} {r : InsightRow}
    (h : RowOf fp label agg r) : bucketOf r.payload = bucketOfCost agg := by
  rw [h.payload, bucketOf_insightPayload]

theorem labelText_bucketOfCost (label : String) (agg : Focus.AggregatedCost) :
    (bucketOfCost agg).labelText label = Focus.labelOf label agg := by
  unfold Bucket.labelText Focus.labelOf Focus.periodLabelOf
  obtain ⟨_, _, _, _, _, start, end_, _, _, _, _, _, _⟩ := agg
  cases start <;> cases end_ <;> rfl

theorem fieldOr_optStr {payload : List (String × Json)} {key default_ : String} {o : Option String}
    (h : Json.get? payload key = some (optStr o)) :
    Insights.fieldOr payload key default_ = Focus.orStr o default_ := by
  rw [Insights.fieldOr, h]
  cases o with
  | none => rfl
  | some s =>
    by_cases hs : s = ""
    · simp [optStr, Py.truthy, Focus.orStr, Focus.truthy, hs]
    · simp [optStr, Py.truthy, Py.str, Focus.orStr, Focus.truthy, hs]

theorem fieldText_str {payload : List (String × Json)} {key value : String}
    (h : Json.get? payload key = some (.str value)) : Insights.fieldText payload key = value := by
  rw [Insights.fieldText, h]
  rfl

theorem orStr_empty (o : Option String) : Focus.orStr o "" = o.getD "" := by
  cases o with
  | none => rfl
  | some s => by_cases hs : s = "" <;> simp [Focus.orStr, Focus.truthy, hs]

/-- The fields of an insight's payload that its stable id is made of. -/
theorem fields_insightPayload (fp : Arith) (label : String) (agg : Focus.AggregatedCost) :
    Insights.fieldText (Focus.insightPayload fp label agg) "service" =
        (bucketOfCost agg).serviceText ∧
      Insights.fieldText (Focus.insightPayload fp label agg) "period_label" =
        (bucketOfCost agg).labelText label ∧
      Insights.fieldOr (Focus.insightPayload fp label agg) "tag_key" "" =
        (bucketOfCost agg).keyText ∧
      Insights.fieldOr (Focus.insightPayload fp label agg) "tag_value" "UNTAGGED" =
        (bucketOfCost agg).valueText := by
  refine ⟨fieldText_str rfl, ?_, ?_, fieldOr_optStr (o := agg.tagValue) rfl⟩
  · rw [labelText_bucketOfCost]
    exact fieldText_str rfl
  · rw [fieldOr_optStr (o := agg.tagKey) rfl, orStr_empty]
    rfl

theorem stableIdOf_account (name : String) (account : Uuid) (payload : List (String × Json)) :
    Insights.stableIdOf name none (some account) payload =
      "chargeback:" ++ Uuid.text account ++ ":" ++ Insights.fieldText payload "service" ++ ":" ++
        Insights.fieldText payload "period_label" ++ ":" ++ Insights.fieldOr payload "tag_key" "" ++
        ":" ++ Insights.fieldOr payload "tag_value" "UNTAGGED" := rfl

theorem key_of_rowOf {fp : Arith} {label : String} {agg : Focus.AggregatedCost} {r : InsightRow}
    (h : RowOf fp label agg r) : Insights.ackSnapshotKey r =
      "chargeback:" ++ (agg.accountId ++ (":" ++ (bucketOfCost agg).text label)) := by
  obtain ⟨account, haccount, htext⟩ := h.account
  obtain ⟨hservice, hlabel, hkey, hvalue⟩ := fields_insightPayload fp label agg
  rw [Insights.ackSnapshotKey, h.resourceId, haccount, h.payload, stableIdOf_account, hservice,
    hlabel, hkey, hvalue, htext, Bucket.text]
  simp only [String.append_assoc]

theorem length_text (id : Uuid) : (Uuid.text id).toList.length = 36 := by
  rw [Uuid.text_toList]
  simp [Uuid.digits_length]

/-- Rows have one stable id iff their buckets are confusable. -/
theorem key_eq_iff {fp : Arith} {label : String} {agg agg' : Focus.AggregatedCost}
    {r r' : InsightRow} (h : RowOf fp label agg r) (h' : RowOf fp label agg' r') :
    Insights.ackSnapshotKey r = Insights.ackSnapshotKey r' ↔
      Confusable label (bucketOf r.payload) (bucketOf r'.payload) := by
  rw [h.bucket, h'.bucket, confusable_iff, key_of_rowOf h, key_of_rowOf h', String.append_right_inj]
  obtain ⟨account, _, htext⟩ := h.account
  obtain ⟨account', _, htext'⟩ := h'.account
  constructor
  · intro hkey
    have hlist := congrArg String.toList hkey
    simp only [String.toList_append] at hlist
    have hlen : agg.accountId.toList.length = agg'.accountId.toList.length := by
      rw [htext, htext', length_text, length_text]
    obtain ⟨haccount, htail⟩ := List.append_inj hlist hlen
    rw [← String.toList_append, ← String.toList_append] at htail
    exact ⟨String.toList_inj.1 haccount, (String.append_right_inj _).1 (String.toList_inj.1 htail)⟩
  · rintro ⟨haccount, htail⟩
    rw [haccount, htail]

/-! ## Reached states -/

/-- Every stored chargeback insight is that of an aggregate, under the label. -/
def Labelled (fp : Arith) (label : String) (t : Store) : Prop :=
  ∀ r ∈ Insights.ofRule t "chargeback", ∃ agg, RowOf fp label agg r

theorem RowOf.withAck {fp : Arith} {label : String} {agg : Focus.AggregatedCost} {r : InsightRow}
    (h : RowOf fp label agg r) (ack : Insights.Ack) :
    RowOf fp label agg (Insights.withAck r ack) := ⟨h.account, h.resourceId, h.payload⟩

theorem ackedRow_cases (t : Store) (r : InsightRow) :
    ackedRow t r = r ∨ ∃ ack, ackedRow t r = Insights.withAck r ack := by
  rw [ackedRow, Insights.carried]
  split
  · cases (Insights.snapshotAcks t "chargeback").get? (Insights.ackSnapshotKey r) with
    | none => exact .inl rfl
    | some ack => exact .inr ⟨ack, rfl⟩
  · exact .inl rfl

theorem ackedRow_eq {α : Type} (f : InsightRow → α)
    (hf : ∀ r ack, f (Insights.withAck r ack) = f r) (t : Store) (r : InsightRow) :
    f (ackedRow t r) = f r := by
  rcases ackedRow_cases t r with h | ⟨ack, h⟩
  · rw [h]
  · rw [h, hf]

theorem RowOf.acked {fp : Arith} {label : String} {agg : Focus.AggregatedCost} {r : InsightRow}
    (h : RowOf fp label agg r) (t : Store) : RowOf fp label agg (ackedRow t r) := by
  rcases ackedRow_cases t r with heq | ⟨ack, heq⟩
  · rw [heq]; exact h
  · rw [heq]; exact h.withAck ack

/-- The chargeback insights after a run: a fresh row for each insight it emits, with the
acknowledgement it carries over. -/
theorem ofRule_runStep (fp : Arith) (env : Env) (t : Store) :
    Insights.ofRule (runStep fp env t) "chargeback" =
      (insightRows t.insights.next (emittedAll fp env t) env.now).map (ackedRow t) := by
  have hrows : (runStep fp env t).insights.rows = _ :=
    (runChargeback_effect fp env (.begin t)).1
  rw [Insights.ofRule, hrows, List.filter_append]
  have hothers : (t.insights.rows.filter fun r => r.ruleName ≠ "chargeback").filter
      (fun r => r.ruleName = "chargeback") = [] := by
    simp [List.filter_filter]
  have hfresh : ∀ r ∈ (insightRows t.insights.next (emittedAll fp env t) env.now).map (ackedRow t),
      r.ruleName = "chargeback" := by
    intro r hr
    obtain ⟨r₀, hr₀, rfl⟩ := List.mem_map.1 hr
    obtain ⟨p, hp, rfl⟩ := List.mem_map.1 hr₀
    rw [ackedRow_eq InsightRow.ruleName fun _ _ => rfl]
    exact ruleName_of_mem_emittedAll (List.fst_mem_of_mem_zipIdx hp)
  have hkept := List.filter_eq_self.2 fun r hr => decide_eq_true (hfresh r hr)
  exact (congrArg₂ (· ++ ·) hothers hkept).trans (List.nil_append _)

/-- Every fresh row is that of an aggregate, with the acknowledgement stored under its id. -/
theorem fresh_row {fp : Arith} {env : Env} {t : Store} {r : InsightRow}
    (h : r ∈ Insights.ofRule (runStep fp env t) "chargeback") :
    Insights.ackOf r = (Insights.snapshotAcks t "chargeback").get? (Insights.ackSnapshotKey r) ∧
      ∃ account ∈ accountIds env t, ∃ agg ∈ aggregatesOf env t account,
        RowOf fp env.periodLabel agg r := by
  rw [ofRule_runStep] at h
  obtain ⟨r₀, hr₀, rfl⟩ := List.mem_map.1 h
  obtain ⟨p, hp, rfl⟩ := List.mem_map.1 hr₀
  obtain ⟨account, haccount, agg, hagg, hi⟩ := mem_emittedAll.1 (List.fst_mem_of_mem_zipIdx hp)
  have hrow : RowOf fp env.periodLabel agg (insightRow p.2 p.1 env.now) := by
    rw [← hi]
    exact ⟨⟨account, rfl, accountId_of_mem_aggregatesOf hagg⟩, rfl, rfl⟩
  refine ⟨?_, account, haccount, agg, hagg, ?_⟩
  · rw [ackedRow_eq Insights.ackSnapshotKey fun _ _ => rfl]
    exact Acks.ackOf_carried _ rfl
  · exact hrow.acked t

/-- Every aggregate has its fresh row. -/
theorem row_of_aggregate (fp : Arith) {env : Env} {t : Store} {account : Uuid}
    (haccount : account ∈ accountIds env t) {agg : Focus.AggregatedCost}
    (hagg : agg ∈ aggregatesOf env t account) :
    ∃ r ∈ Insights.ofRule (runStep fp env t) "chargeback", RowOf fp env.periodLabel agg r := by
  have hi : Focus.buildInsight fp env.periodLabel account agg ∈ emittedAll fp env t :=
    mem_emittedAll.2 ⟨account, haccount, agg, hagg, rfl⟩
  obtain ⟨n, hn, hget⟩ := List.mem_iff_getElem.1 hi
  have hp : (Focus.buildInsight fp env.periodLabel account agg, t.insights.next + n) ∈
      (emittedAll fp env t).zipIdx t.insights.next := by
    rw [List.mk_add_mem_zipIdx_iff_getElem?, List.getElem?_eq_getElem hn, hget]
  rw [ofRule_runStep]
  refine ⟨_, List.mem_map_of_mem (List.mem_map_of_mem hp), RowOf.acked ?_ t⟩
  exact ⟨⟨account, rfl, accountId_of_mem_aggregatesOf hagg⟩, rfl, rfl⟩

theorem labelled_run (fp : Arith) (env : Env) (t : Store) :
    Labelled fp env.periodLabel (runStep fp env t) := by
  intro r hr
  obtain ⟨_, _, _, agg, _, hrow⟩ := fresh_row hr
  exact ⟨agg, hrow⟩

theorem labelled_ack {fp : Arith} {label : String} {t : Store} (h : Labelled fp label t)
    (insightId : Uuid) (status : AckStatus) (ackBy : Option String) (ackAt : Option Micros)
    (now : Micros) : Labelled fp label
      (Insights.updateAck (.begin t) insightId status ackBy ackAt now).1.commit.close := by
  rw [Session.close_commit]
  cases hrow : t.insights.get? insightId with
  | none => simpa [Insights.updateAck, hrow] using h
  | some row =>
    intro r hr
    obtain ⟨hmem, hname⟩ := List.mem_filter.1 hr
    rw [Insights.updateAck, show (Session.begin t : DbSession).working = t from rfl, hrow] at hmem
    have hput : r ∈ t.insights.put (Insights.withAck row ⟨status, some (ackAt.getD now), ackBy⟩) :=
      hmem
    rcases Table.mem_put.1 hput with rfl | ⟨hr, _⟩
    · obtain ⟨agg, hagg⟩ := h row (List.mem_filter.2 ⟨(Table.get?_eq_some.1 hrow).1, hname⟩)
      exact ⟨agg, hagg.withAck _⟩
    · exact h r (List.mem_filter.2 ⟨hr, hname⟩)

theorem Reached.labelled {fp : Arith} {label : String} {t : Store} (h : Reached fp label t) :
    Labelled fp label t := by
  induction h with
  | start h => intro r hr; rw [h] at hr; cases hr
  | run _ env hlabel _ => rw [← hlabel]; exact labelled_run fp env _
  | ack _ insightId status ackBy ackAt now ih =>
    exact labelled_ack ih insightId status ackBy ackAt now
  | elsewhere _ hsame ih => intro r hr; rw [hsame] at hr; exact ih r hr

/-! ## Isolation -/

/-- The buckets a run meets are those of the insights before and after it. -/
theorem mem_buckets (fp : Arith) {env : Env} {t : Store} {b : Bucket} :
    b ∈ buckets env t ↔ ∃ r ∈ Insights.ofRule t "chargeback" ++
      Insights.ofRule (runStep fp env t) "chargeback", bucketOf r.payload = b := by
  rw [buckets, List.mem_append]
  constructor
  · rintro (h | h)
    · obtain ⟨r, hr, hb⟩ := List.mem_map.1 h
      exact ⟨r, List.mem_append_left _ hr, hb⟩
    · obtain ⟨account, haccount, h⟩ := List.mem_flatMap.1 h
      obtain ⟨agg, hagg, rfl⟩ := List.mem_map.1 h
      obtain ⟨r, hr, hrow⟩ := row_of_aggregate fp haccount hagg
      exact ⟨r, List.mem_append_right _ hr, hrow.bucket⟩
  · rintro ⟨r, hr, rfl⟩
    rcases List.mem_append.1 hr with hr | hr
    · exact .inl (List.mem_map_of_mem hr)
    · obtain ⟨_, account, haccount, agg, hagg, hrow⟩ := fresh_row hr
      rw [hrow.bucket]
      exact .inr (List.mem_flatMap.2 ⟨account, haccount, List.mem_map_of_mem hagg⟩)

/-- An acknowledgement reaches a fresh row exactly from the rows with its stable id. -/
theorem acked_iff_key {fp : Arith} {env : Env} {t : Store} {r : InsightRow}
    (h : r ∈ Insights.ofRule (runStep fp env t) "chargeback") :
    Insights.ackOf r ≠ none ↔ ∃ p ∈ Insights.ofRule t "chargeback",
      Insights.ackSnapshotKey p = Insights.ackSnapshotKey r ∧ Insights.ackOf p ≠ none := by
  rw [(fresh_row h).1]
  constructor
  · intro hsome
    obtain ⟨ack, hack⟩ := Option.ne_none_iff_exists'.1 hsome
    obtain ⟨p, hp, hkey, hpack⟩ := Acks.get?_snapshot_some hack
    exact ⟨p, hp, hkey, by rw [hpack]; exact Option.some_ne_none ack⟩
  · rintro ⟨p, hp, hkey, hpack⟩ hnone
    rw [← hkey] at hnone
    exact hpack (Acks.get?_snapshot_none hp hnone)

/-- In every state that runs and acknowledgements reach, a run is isolated exactly when no two
different buckets it meets are confusable. -/
theorem isolated_iff {fp : Arith} {label : String} {t : Store} (h : Reached fp label t) {env : Env}
    (hlabel : env.periodLabel = label) : Isolated fp env t ↔
      ∀ b ∈ buckets env t, ∀ b' ∈ buckets env t, b ≠ b' → ¬ Confusable label b b' := by
  have hrows : ∀ r ∈ Insights.ofRule t "chargeback" ++
      Insights.ofRule (runStep fp env t) "chargeback", ∃ agg, RowOf fp label agg r := by
    intro r hr
    rcases List.mem_append.1 hr with hr | hr
    · exact h.labelled r hr
    · rw [← hlabel]; exact labelled_run fp env t r hr
  constructor
  · intro hisolated b hb b' hb' hne hconf
    obtain ⟨r, hr, rfl⟩ := (mem_buckets fp).1 hb
    obtain ⟨r', hr', rfl⟩ := (mem_buckets fp).1 hb'
    obtain ⟨agg, hagg⟩ := hrows r hr
    obtain ⟨agg', hagg'⟩ := hrows r' hr'
    exact hisolated.ids r hr r' hr' hne ((key_eq_iff hagg hagg').2 hconf)
  · intro hapart
    have hids : ∀ r ∈ Insights.ofRule t "chargeback" ++
        Insights.ofRule (runStep fp env t) "chargeback",
        ∀ r' ∈ Insights.ofRule t "chargeback" ++
          Insights.ofRule (runStep fp env t) "chargeback",
          (Insights.ackSnapshotKey r = Insights.ackSnapshotKey r' ↔
            bucketOf r.payload = bucketOf r'.payload) := by
      intro r hr r' hr'
      obtain ⟨agg, hagg⟩ := hrows r hr
      obtain ⟨agg', hagg'⟩ := hrows r' hr'
      rw [key_eq_iff hagg hagg']
      constructor
      · intro hconf
        by_contra hne
        exact hapart _ ((mem_buckets fp).2 ⟨r, hr, rfl⟩) _ ((mem_buckets fp).2 ⟨r', hr', rfl⟩) hne hconf
      · intro heq
        rw [heq]
        exact ⟨rfl, .inl ⟨rfl, rfl, rfl, rfl⟩⟩
    refine ⟨fun r hr => ?_, fun r hr r' hr' hne hkey => hne ((hids r hr r' hr').1 hkey)⟩
    rw [acked_iff_key hr]
    have hfresh := List.mem_append_right (Insights.ofRule t "chargeback") hr
    constructor
    · rintro ⟨p, hp, hkey, hack⟩
      exact ⟨p, hp, (hids p (List.mem_append_left _ hp) r hfresh).1 hkey, hack⟩
    · rintro ⟨p, hp, hbucket, hack⟩
      exact ⟨p, hp, (hids p (List.mem_append_left _ hp) r hfresh).2 hbucket, hack⟩

/-! ### Two months under one label -/

def rdsBill (month : Nat) : Focus.RowCells where
  accountId := "123456789012"
  accountName := "Production"
  service := "Amazon RDS"
  region := some "eu-west-1"
  pricingCategory := some "Standard"
  periodStart := .ofYmd 2026 month 1
  periodEnd := .ofYmd 2026 (month + 1) 1
  billedCost := 100
  amortizedCost := 90
  resourceId := none
  subAccountId := none
  tags := .empty
  billingCurrency := "USD"

/-- The store after the ingest of one file. -/
def ingested (rows : List Focus.RowCells) : Store :=
  match Focus.ingestInto String.toLower ⟨.empty, Focus.ServiceCatalog.named_empty⟩ .empty
    ⟨"aws", none, rows.map .ok⟩ "123456789012" none with
  | .ok p => p.1
  | .error _ => .empty

def billed (months : List Nat) : Store := ingested (months.map rdsBill)

def allTime : Env where
  now := 0
  periodLabel := "all-time"
  tagKey := none
  order := Focus.insertionOrder
  accounts l := l
  accounts_perm _ := .refl _

/-- After a run, the operator acknowledges its first insight. -/
def acknowledged (t : Store) : Store :=
  (Insights.updateAck (.begin (runStep .double allTime t)) 0 .inProgress
    (some "ops") none 0).1.commit.close

theorem reached_acknowledged {t : Store} (h : Insights.ofRule t "chargeback" = []) :
    Reached .double "all-time" (acknowledged t) :=
  .ack (.run (.start h) allTime rfl) 0 .inProgress (some "ops") none 0

/-- The acknowledgement of January's insight reaches February's with the next run. -/
theorem january_ack_reaches_february :
    ∃ t, Reached .double "all-time" t ∧ ¬ Isolated .double allTime t := by
  refine ⟨acknowledged (billed [1, 2]), reached_acknowledged (by decide +kernel), fun h => ?_⟩
  exact absurd h.acks (by decide +kernel)

def twoServices : Store := ingested [rdsBill 1, { rdsBill 1 with service := "Amazon EC2" }]

/-- With two services in one month, the acknowledgement of the one is not the other's. -/
theorem two_services_isolated : Isolated .double allTime (acknowledged twoServices) :=
  (isolated_iff (reached_acknowledged (by decide +kernel)) rfl).2 (by decide +kernel)

end Chargeback

end Constat
