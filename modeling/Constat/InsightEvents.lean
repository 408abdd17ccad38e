import Constat.Insights
import Constat.Py.Hashlib

/-!
# InsightEvents

`repositories/insight_events.py` and the monetary registry it reads. The rule run deletes and
replaces the insights of its rule; the history of appeared and resolved insights is the difference
of the fingerprints stored before and after the run. A fingerprint hashes the title.
-/

namespace Constat

namespace InsightEvents

/-- `MONETARY`: the payload key of each rule's monthly amount. -/
def monetaryKeys : List (String × String) :=
  [("rds_eol", "extended_support_monthly_usd"), ("mysql_eol", "extended_support_monthly_usd"),
    ("aurora_eol", "extended_support_monthly_usd"), ("ebs_gp2_to_gp3", "savings_monthly_usd"),
    ("ebs_unattached", "monthly_waste_usd"), ("snapshot_orphan", "orphan_snapshot_monthly_usd"),
    ("ec2_stopped_with_storage", "stopped_storage_monthly_usd"),
    ("chargeback", "drift_amortized_minus_billed_usd")]

def monetaryKey (ruleName : String) : Option String :=
  (monetaryKeys.find? fun p => p.1 = ruleName).map (·.2)

/-- A number as a float; a bool is not a number here, and an integer beyond the range of a float
is infinite instead of raising. -/
def asFloat (fp : Arith) : Json → Option PyFloat
  | .int i => some (fp.fit i)
  | .float f => some f
  | _ => none

/-- The monthly amount of an insight of `ruleName`. -/
def monthlyCost (fp : Arith) (ruleName : String) (payload : List (String × Json)) :
    Option PyFloat :=
  (monetaryKey ruleName).bind fun key => (Json.get? payload key).bind (asFloat fp)

/-- The identity of an insight in the event log. -/
def fingerprintOf (ruleName : String) (resourceId : Option Uuid) (title : String) : String :=
  sha256 (ruleName ++ "|" ++ resourceId.elim "" Uuid.text ++ "|" ++ title)

def fingerprint (r : InsightRow) : String := fingerprintOf r.ruleName r.resourceId r.title

/-- The insights of a rule by fingerprint. -/
def snapshotRule (s : Store) (ruleName : String) : Dict String InsightRow :=
  (Insights.ofRule s ruleName).foldl (fun d r => d.set (fingerprint r) r) .empty

def eventOf (fp : Arith) (s : Store) (ruleName : String) (print : String) (row : InsightRow)
    (event : EventKind) (run : Uuid) (now : Micros) : InsightEventRow where
  id := s.insightEvents.next
  fingerprint := print
  ruleName := ruleName
  resourceId := row.resourceId
  accountId := row.accountId.map Uuid.text
  title := row.title
  event := event
  monthlyUsd := monthlyCost fp ruleName row.payload
  insightRunId := some run
  occurredAt := now

/-- The items of `d` whose key is not in `other`. -/
def absentFrom (d other : Dict String InsightRow) : List (String × InsightRow) :=
  d.items.filter fun p => (other.get? p.1).isNone

def record (fp : Arith) (ruleName : String) (run : Uuid) (now : Micros) (event : EventKind)
    (s : DbSession) (p : String × InsightRow) : DbSession :=
  s.write (.insightEvent (eventOf fp s.working ruleName p.1 p.2 event run now))

/-- Fresh fingerprints have appeared, those that are gone are resolved. -/
def diffAndRecordEvents (fp : Arith) (s : DbSession) (ruleName : String)
    (previous : Dict String InsightRow) (run : Uuid) (now : Micros) : DbSession :=
  let current := snapshotRule s.working ruleName
  let s := (absentFrom current previous).foldl (record fp ruleName run now .appeared) s
  (absentFrom previous current).foldl (record fp ruleName run now .resolved) s

/-- `resolved_monthly_usd_total` of `summarize_events` over all rules. -/
def resolvedMonthlyUsdTotal (fp : Arith) (events : List InsightEventRow) : PyFloat :=
  (events.filter fun e => e.event = .resolved).foldl
    (fun total e => fp.add total (e.monthlyUsd.getD (.finite 0))) (.finite 0)

end InsightEvents

end Constat
