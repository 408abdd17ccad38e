import Constat.Rules.Models

/-!
# Insights

`repositories/insights.py` and `repositories/inconclusive.py`, as far as a rule run uses them:
inserting fresh rows, clearing a rule's previous output, and carrying the operator's
acknowledgements over by `stableIdOf`, the identity of a gap that does not depend on its title.
-/

namespace Constat

structure Inconclusive where
  ruleName : String
  resourceId : Option Uuid
  accountId : Option Uuid
  missingFacts : List String
  reason : Option String
deriving DecidableEq

namespace Insights

/-- The row an insert writes; the acknowledgement is never set on insert. -/
def freshRow (s : Store) (i : Insight) (now : Micros) : InsightRow where
  id := s.insights.next
  ruleName := i.ruleName
  resourceId := i.resourceId
  accountId := i.accountId
  severity := i.severity
  title := i.title
  payload := i.payload
  computedAt := now
  ackStatus := none
  ackAt := none
  ackBy := none

def insertInsight (s : DbSession) (i : Insight) (now : Micros) : DbSession :=
  s.write (.insight (freshRow s.working i now))

def insertInconclusive (s : DbSession) (i : Inconclusive) (now : Micros) : DbSession :=
  s.write (.inconclusive {
    id := s.working.inconclusive.next
    ruleName := i.ruleName
    resourceId := i.resourceId
    accountId := i.accountId
    missingFacts := i.missingFacts
    reason := i.reason
    computedAt := now
    owner := none
    dueDate := none
    status := .opened })

def deleteInsightsForRule (s : DbSession) (ruleName : String) : DbSession :=
  s.write (.deleteInsightsOf ruleName)

def deleteInconclusiveForRule (s : DbSession) (ruleName : String) : DbSession :=
  s.write (.deleteInconclusiveOf ruleName)

def ofRule (s : Store) (ruleName : String) : List InsightRow :=
  s.insights.rows.filter fun r => r.ruleName = ruleName

/-! ## Acknowledgements -/

/-- `p.get(key, default)` in an f-string. -/
def fieldText (payload : List (String × Json)) (key : String) : String :=
  ((Json.get? payload key).map Py.str).getD ""

/-- `p.get(key) or default` in an f-string. -/
def fieldOr (payload : List (String × Json)) (key default_ : String) : String :=
  match Json.get? payload key with
  | some value => if Py.truthy value then Py.str value else default_
  | none => default_

/-- The identity of a gap: the resource under the rule, or the bucket of an account. -/
def stableIdOf (ruleName : String) (resourceId accountId : Option Uuid)
    (payload : List (String × Json)) : String :=
  match resourceId with
  | some id => "resource:" ++ ruleName ++ ":" ++ Uuid.text id
  | none =>
    "chargeback:" ++ accountId.elim "None" Uuid.text ++ ":" ++ fieldText payload "service" ++ ":" ++
      fieldText payload "period_label" ++ ":" ++ fieldOr payload "tag_key" "" ++ ":" ++
      fieldOr payload "tag_value" "UNTAGGED"

def ackSnapshotKey (r : InsightRow) : String :=
  stableIdOf r.ruleName r.resourceId r.accountId r.payload

structure Ack where
  status : AckStatus
  at_ : Option Micros
  by_ : Option String
deriving DecidableEq

def ackOf (r : InsightRow) : Option Ack := r.ackStatus.map fun status => ⟨status, r.ackAt, r.ackBy⟩

/-- The acknowledged insights of a rule by stable id; the last one wins. -/
def snapshotAcks (s : Store) (ruleName : String) : Dict String Ack :=
  (ofRule s ruleName).foldl (fun d r =>
    match ackOf r with
    | some ack => d.set (ackSnapshotKey r) ack
    | none => d) .empty

def withAck (r : InsightRow) (ack : Ack) : InsightRow :=
  { r with ackStatus := some ack.status, ackAt := ack.at_, ackBy := ack.by_ }

/-- The operator's acknowledgement of one insight; `none` when there is no such insight. -/
def updateAck (s : DbSession) (insightId : Uuid) (status : AckStatus) (ackBy : Option String)
    (ackAt : Option Micros) (now : Micros) : DbSession × Option InsightRow :=
  match s.working.insights.get? insightId with
  | none => (s, none)
  | some row =>
    let row := withAck row ⟨status, some (ackAt.getD now), ackBy⟩
    (s.write (.insight row), some row)

/-- The row with the acknowledgement it carries over, when it has none of its own. -/
def carried (snapshot : Dict String Ack) (r : InsightRow) : Option InsightRow :=
  if r.ackStatus = none then (snapshot.get? (ackSnapshotKey r)).map (withAck r) else none

def applyAcksToRule (s : DbSession) (ruleName : String) (snapshot : Dict String Ack) : DbSession :=
  s.writes (((ofRule s.working ruleName).filterMap (carried snapshot)).map .insight)

end Insights

end Constat
