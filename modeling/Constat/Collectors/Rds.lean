import Constat.Catalog.Aws
import Constat.Collectors.Aws

/-!
# Collectors.Rds

`constat_aws_rds/collector.py`: an RDS DescribeDBInstances item as facts and as an observation.
-/

namespace Constat

namespace Collectors

namespace Rds

def resourceType : String := "AWS::RDS::DBInstance"

def sourceName : String := "aws_rds"

def dbToFacts (resourceId accountId : Uuid) (db : Raw) (observedAt : Micros) : List Fact :=
  let instanceClass := if Py.truthy (db.get "DBInstanceClass") then db.get "DBInstanceClass"
    else .str ""
  let vcpu := Catalog.vcpuForInstanceClass (Py.str instanceClass)
  let fact := makeFact "aws.rds" sourceName accountId observedAt resourceId
  let direct := fun key value => fact key value (knownOrUnknown value)
  [direct "engine" (db.get "Engine"),
    direct "engine_version" (db.get "EngineVersion"),
    fact "instance_class" (if Py.truthy instanceClass then instanceClass else .null)
      (knownOrUnknown instanceClass),
    fact "vcpu" (vcpu.elim .null .int) (if vcpu.isSome then .known else .unknown),
    direct "region" (db.get "_region")]

def dbToObservation (resourceId : Uuid) (db : Raw) (observedAt : Micros) : Observation where
  resourceId := resourceId
  source := sourceName
  observedAt := observedAt
  payload := .obj (
    db.pick ["DBInstanceArn", "DBInstanceIdentifier", "Engine", "EngineVersion",
      "DBInstanceClass", "DBInstanceStatus", "AllocatedStorage"] ++
    [("InstanceCreateTime", db.iso "InstanceCreateTime")] ++
    db.pick ["MultiAZ", "StorageEncrypted"] ++
    [("DBSubnetGroup", (db.sub "DBSubnetGroup").get "DBSubnetGroupName"),
      ("Endpoint", (db.sub "Endpoint").get "Address")])

end Rds

end Collectors

end Constat
