import Constat.InsightEvents
import Constat.Py.Calendar

/-!
# Reconcile

`insights/reconcile.py`: the fresh insights of a rule get the FOCUS cost of their resource as
context. Only the payload changes.
-/

namespace Constat

namespace Reconcile

def ruleFocusServices : List (String × String) :=
  let rds := "Amazon Relational Database Service"
  let ec2 := "Amazon Elastic Compute Cloud - Compute"
  [("rds_eol", rds), ("mysql_eol", rds), ("aurora_eol", rds), ("ebs_gp2_to_gp3", ec2),
    ("ebs_unattached", ec2), ("snapshot_orphan", ec2), ("ec2_stopped_with_storage", ec2)]

def focusService (ruleName : String) : Option String :=
  (ruleFocusServices.find? fun p => p.1 = ruleName).map (·.2)

def daysInMonth : Rat := 30

/-- `max` or `min` of a nonempty list of dates. -/
def latest (d : Date) (ds : List Date) : Date := ds.foldl (fun a b => if a < b then b else a) d
def earliest (d : Date) (ds : List Date) : Date := ds.foldl (fun a b => if b < a then b else a) d

/-- The lines of a resource in the latest period available. -/
def latestPeriodLines (s : Store) (nativeId : String) (service : Option String) :
    List FocusChargeRow :=
  let rows := s.focusCharges.rows.filter fun r =>
    r.resourceId = some nativeId ∧ ∀ name ∈ service, r.service = name
  match rows with
  | [] => []
  | r :: rest =>
    let latestEnd := latest r.periodEnd (rest.map (·.periodEnd))
    rows.filter fun r => r.periodEnd = latestEnd

/-- The context fields of the lines, if their period is not empty. -/
def context (fp : Arith) : List FocusChargeRow → Option (List (String × Json))
  | [] => none
  | line :: rest =>
    let lines := line :: rest
    let start := earliest line.periodStart (rest.map (·.periodStart))
    let end_ := latest line.periodEnd (rest.map (·.periodEnd))
    let days := end_.daysSince start + 1
    if days ≤ 0 then none
    else
      let total := fp.fit (lines.map (·.amortizedCost)).sum
      let monthly := fp.mul (fp.div total (fp.fit days)) (.finite daysInMonth)
      some
        [("focus_confirmed", .bool true), ("focus_resource_monthly_usd", .float monthly),
          ("focus_period", .str (start.isoformat ++ ".." ++ end_.isoformat)),
          ("focus_billing_currency", .str line.billingCurrency)]

/-- The insight with its context, when it has an amount and a resource with FOCUS lines. -/
def contextualized (fp : Arith) (s : Store) (ruleName : String) (i : InsightRow) :
    Option InsightRow :=
  match InsightEvents.monthlyCost fp ruleName i.payload with
  | none => none
  | some _ =>
    match i.resourceId.bind s.resources.get? with
    | none => none
    | some resource =>
      (context fp (latestPeriodLines s resource.nativeId (focusService ruleName))).map
        fun fields => { i with payload := updateFields i.payload fields }

def reconcileWithFocus (fp : Arith) (s : DbSession) (ruleName : String) : DbSession :=
  s.writes (((Insights.ofRule s.working ruleName).filterMap
    (contextualized fp s.working ruleName)).map .insight)

end Reconcile

end Constat
