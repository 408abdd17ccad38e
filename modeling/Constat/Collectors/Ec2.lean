import Constat.Collectors.Aws

/-!
# Collectors.Ec2

`constat_aws_ec2/collector.py`: EBS volumes, EBS snapshots and EC2 instances as facts and as
observations, and the correlation pass over the items of one region. The correlated facts are
written only when the region's volume scan was seen.
-/

namespace Constat

namespace Collectors

namespace Ec2

def volumeResourceType : String := "AWS::EC2::Volume"
def snapshotResourceType : String := "AWS::EC2::Snapshot"
def instanceResourceType : String := "AWS::EC2::Instance"

def sourceName : String := "aws_ec2"

/-! ## Volumes -/

def volumeToFacts (resourceId accountId : Uuid) (vol : Raw) (observedAt : Micros) : List Fact :=
  let attachment := ((vol.items "Attachments").head?).getD []
  let fact := fun key value => makeFact "aws.ec2.volume" sourceName accountId observedAt resourceId
    key value (knownOrUnknown value)
  [fact "size_gb" (vol.get "Size"),
    fact "volume_type" (vol.get "VolumeType"),
    fact "state" (vol.get "State"),
    fact "encrypted" (vol.get "Encrypted"),
    fact "iops" (vol.get "Iops"),
    fact "throughput" (vol.get "Throughput"),
    fact "attached_instance_id" (attachment.get "InstanceId"),
    fact "attached_device" (attachment.get "Device"),
    fact "create_time" (vol.iso "CreateTime"),
    fact "region" (vol.get "_region")]

def volumeToObservation (resourceId : Uuid) (vol : Raw) (observedAt : Micros) : Observation where
  resourceId := resourceId
  source := sourceName
  observedAt := observedAt
  payload := .obj (
    vol.pick ["VolumeId", "VolumeType", "State", "Size", "Iops", "Throughput", "Encrypted",
      "AvailabilityZone"] ++
    [("CreateTime", vol.iso "CreateTime"),
      ("Attachments", .list ((vol.items "Attachments").map fun a =>
        .obj (a.pick ["InstanceId", "Device", "State"]))),
      ("Tags", vol.tags)])

/-! ## Snapshots -/

def snapshotToFacts (resourceId accountId : Uuid) (snap : Raw) (observedAt : Micros) : List Fact :=
  let fact := fun key value => makeFact "aws.ec2.snapshot" sourceName accountId observedAt
    resourceId key value (knownOrUnknown value)
  [fact "state" (snap.get "State"),
    fact "size_gb" (snap.get "VolumeSize"),
    fact "storage_tier" (snap.get "StorageTier"),
    fact "volume_id" (snap.get "VolumeId"),
    fact "start_time" (snap.iso "StartTime"),
    fact "description" (snap.get "Description"),
    fact "region" (snap.get "_region")]

def snapshotToObservation (resourceId : Uuid) (snap : Raw) (observedAt : Micros) :
    Observation where
  resourceId := resourceId
  source := sourceName
  observedAt := observedAt
  payload := .obj (
    snap.pick ["SnapshotId", "State", "VolumeSize", "VolumeId", "Encrypted", "OwnerId"] ++
    [("StartTime", snap.iso "StartTime"), ("Description", snap.get "Description"),
      ("Tags", snap.tags)])

/-! ## Instances -/

def instanceState (inst : Raw) : Json := (inst.sub "State").get "Name"

/-- The volume ids of the block devices that have one. -/
def blockDeviceVolumeIds (inst : Raw) : List Json :=
  ((inst.items "BlockDeviceMappings").map fun m => (m.sub "Ebs").get "VolumeId").filter Py.truthy

/-- An empty list of volume ids is an observation, so that fact is KNOWN in any case. -/
def instanceToFacts (resourceId accountId : Uuid) (inst : Raw) (observedAt : Micros) : List Fact :=
  let fact := makeFact "aws.ec2.instance" sourceName accountId observedAt resourceId
  let direct := fun key value => fact key value (knownOrUnknown value)
  [direct "state" (instanceState inst),
    direct "instance_type" (inst.get "InstanceType"),
    direct "launch_time" (inst.iso "LaunchTime"),
    fact "block_device_volume_ids" (.list (blockDeviceVolumeIds inst)) .known,
    direct "region" (inst.get "_region")]

def instanceToObservation (resourceId : Uuid) (inst : Raw) (observedAt : Micros) :
    Observation where
  resourceId := resourceId
  source := sourceName
  observedAt := observedAt
  payload := .obj (
    inst.pick ["InstanceId", "InstanceType"] ++
    [("State", instanceState inst), ("ImageId", inst.get "ImageId"),
      ("LaunchTime", inst.iso "LaunchTime")] ++
    inst.pick ["PrivateIpAddress", "PublicIpAddress"] ++
    [("BlockDeviceMappings", .list ((inst.items "BlockDeviceMappings").map fun m =>
        .obj [("DeviceName", m.get "DeviceName"), ("VolumeId", (m.sub "Ebs").get "VolumeId")])),
      ("Tags", inst.tags)])

/-! ## Correlation -/

abbrev Item := Uuid × Raw

/-- `volume_index.get(volume_id)`; the last volume with an id wins. -/
def lookupVolume (volumes : List Item) (volumeId : Json) : Option Raw :=
  (volumes.reverse.find? fun v =>
    Py.truthy (v.2.get "VolumeId") ∧ v.2.get "VolumeId" = volumeId).map (·.2)

def volumeExistsFact (volumes : List Item) (accountId : Uuid) (observedAt : Micros)
    (snapshot : Item) : Fact :=
  makeFact "aws.ec2.snapshot" sourceName accountId observedAt snapshot.1 "volume_exists"
    (.bool (Py.truthy (snapshot.2.get "VolumeId") &&
      (lookupVolume volumes (snapshot.2.get "VolumeId")).isSome)) .known

/-- The block devices of an instance, as far as the volume scan saw them. -/
def attachedVolumes (volumes : List Item) (inst : Raw) : List Json :=
  (blockDeviceVolumeIds inst).filterMap fun volumeId =>
    (lookupVolume volumes volumeId).map fun vol => Json.obj
      [("volume_id", volumeId), ("size_gb", vol.get "Size"), ("volume_type", vol.get "VolumeType")]

def attachedVolumesFact (volumes : List Item) (accountId : Uuid) (observedAt : Micros)
    (inst : Item) : Fact :=
  makeFact "aws.ec2.instance" sourceName accountId observedAt inst.1 "attached_volumes"
    (.list (attachedVolumes volumes inst.2)) .known

/-- The facts one item cannot carry; none without the region's volumes. -/
def correlationFacts (volumes : Option (List Item)) (snapshots instances : List Item)
    (accountId : Uuid) (observedAt : Micros) : List Fact :=
  match volumes with
  | none => []
  | some volumes =>
    snapshots.map (volumeExistsFact volumes accountId observedAt) ++
      (instances.filter fun i => instanceState i.2 = .str "stopped").map
        (attachedVolumesFact volumes accountId observedAt)

end Ec2

end Collectors

end Constat
