import MachineSpec.Keyword
import MachineSpec.Spec.Grant

/-!
# Specifications

A specification says how a virtual machine is to be built: where it runs, what it gets of disks,
networks and addresses, who may log in, and how it is backed up.  Every part may be missing; an
empty text, a zero and an empty list all mean that nothing is said.

* `Spec`   the whole
* `Resources`, `DiskTemplate`, `SystemDisk`, `NetworkInterface`, `Allocation`, `AuthorizedKeys`,
  `BackupPolicy`, `Schedule`   its parts
-/

namespace MachineSpec

/-- a package of resources, or amounts of memory and processor cores -/
structure Resources where
  package : Option (Reference .package) := none
  memory : UInt32 := 0
  cpuCores : UInt32 := 0
  deriving DecidableEq, Repr, Inhabited

structure TemplateOption where
  key : String := ""
  value : String := ""
  deriving DecidableEq, Repr, Inhabited

/-- the template that the first disk is made from, with its version and settings -/
structure DiskTemplate where
  reference : Reference .diskTemplate := .empty
  version : UInt32 := 0
  options : List TemplateOption := []
  deriving DecidableEq, Repr, Inhabited

instance : Lookup DiskTemplate where
  kind := .diskTemplate
  empty := {}
  reference := DiskTemplate.reference
  withReference t r := { t with reference := r }

structure Schedule where
  interval : Option Interval := none
  frequency : UInt32 := 0
  time : UInt32 := 0
  deriving DecidableEq, Repr, Inhabited

/-- how long backups are kept, and when they are made -/
structure BackupPolicy where
  retention : UInt32 := 0
  schedule : Option Schedule := none
  deriving DecidableEq, Repr, Inhabited

/-- a disk of the machine's own -/
structure SystemDisk where
  name : String := ""
  size : UInt32 := 0
  speed : String := ""
  ioProfile : Option (Reference .ioProfile) := none
  fileSystemType : String := ""
  backupPolicies : List BackupPolicy := []
  deriving DecidableEq, Repr, Inhabited

/-- an address of an interface: one that exists, or a new one out of a subnet -/
structure Allocation where
  type : Option AllocationType := none
  ipAddress : Option (Reference .ipAddress) := none
  subnet : Option (Reference .subnet) := none
  version : Option IpVersion := none
  deriving DecidableEq, Repr, Inhabited

structure NetworkInterface where
  network : Option (Reference .network) := none
  virtualNetwork : Option (Reference .virtualNetwork) := none
  speedProfile : Option (Reference .speedProfile) := none
  allocations : List Allocation := []
  deriving DecidableEq, Repr, Inhabited

/-- whose keys open the machine -/
structure AuthorizedKeys where
  users : Access .user := {}
  sshKeys : Access .sshKey := {}
  deriving DecidableEq, Repr, Inhabited

/-- how a virtual machine is to be built -/
structure Spec where
  zone : Option (Reference .zone) := none
  dataCenter : Option (Reference .dataCenter) := none
  resources : Option Resources := none
  diskTemplate : Option DiskTemplate := none
  systemDisks : List SystemDisk := []
  sharedDisks : List (Reference .sharedDisk) := []
  networkInterfaces : List NetworkInterface := []
  hostname : String := ""
  name : String := ""
  description : String := ""
  group : Option (Reference .group) := none
  authorizedKeys : Option AuthorizedKeys := none
  backupPolicies : List BackupPolicy := []
  tags : List String := []
  iso : Option (Reference .iso) := none
  deriving DecidableEq, Repr, Inhabited

end MachineSpec
