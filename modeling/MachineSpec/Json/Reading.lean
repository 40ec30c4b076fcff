import MachineSpec.Json.Schema
import Mathlib.Data.List.Defs
import Mathlib.Tactic.MkIffOfInductiveProp

/-!
# What a JSON value is read as

Told from the value alone.  A field stands under its key in an object, and at its place in a list.
Where it is missing or null it has its default; otherwise it is what its value is read as.

* `Value.field?`        the value of a field
* `Reading.Field`       a field, with its default
* `Reading.Text`, `Number`, `Flag`, `Word`, `Part`, `Items`   what values are read as
* `Reference.IsReadingOf`, `Resources.IsReadingOf`, ...       the parts of a specification
* `Spec.IsReadingOf`    a specification as what a value is read as
-/

namespace MachineSpec

namespace Json

namespace Value

/-- a value that is there; null is none -/
def present? : Value → Option Value
  | .null => none
  | v => some v

/-- the value of a field: in an object under its key, in a list at its place -/
def field? (v : Value) (place : Nat) (key : String) : Option Value :=
  match v with
  | .object ms => (ms.lookup key).bind present?
  | .list vs => vs[place]?.bind present?
  | _ => none

end Value

namespace Reading
variable {α : Type}

/-- a field: its default, if it has no value, and otherwise what its value is read as -/
inductive Field (default : α) (reads : α → Value → Prop) : α → Option Value → Prop
  | missing : Field default reads default none
  | present {a : α} {v : Value} (value : reads a v) : Field default reads a (some v)

inductive Text : String → Value → Prop
  | text (s : String) : Text s (.text s)

inductive Number : UInt32 → Value → Prop
  | number (n : UInt32) : Number n (.number { whole := n.toNat })

inductive Flag : Bool → Value → Prop
  | flag (b : Bool) : Flag b (.flag b)

/-- a word is a text, or the only key of an object -/
inductive Word [Keyword α] : α → Value → Prop
  | text (a : α) : Word a (.text (Keyword.word a))
  | key (a : α) : Word a (.object [(Keyword.word a, .null)])

/-- a part that may be missing, and is not -/
inductive Part (reads : α → Value → Prop) : Option α → Value → Prop
  | part {a : α} {v : Value} (value : reads a v) : Part reads (some a) v

inductive Items (reads : α → Value → Prop) : List α → Value → Prop
  | list {as : List α} {vs : List Value} (items : List.Forall₂ reads as vs) :
      Items reads as (.list vs)

end Reading

end Json

open Json (Value)
open Json.Reading

/-- a text for each selector -/
def Reference.IsReadingOf {k : Kind} (r : Reference k) (v : Value) : Prop :=
  ∀ i : Fin k.selectors.length, Field "" Text (r.values.get i) (v.field? i (k.selectors.get i))

@[mk_iff]
structure Resources.IsReadingOf (r : Resources) (v : Value) : Prop where
  package : Field none (Part Reference.IsReadingOf) r.package (v.field? 0 "package")
  memory : Field 0 Number r.memory (v.field? 1 "memory")
  cpuCores : Field 0 Number r.cpuCores (v.field? 2 "cpu_cores")

@[mk_iff]
structure TemplateOption.IsReadingOf (o : TemplateOption) (v : Value) : Prop where
  key : Field "" Text o.key (v.field? 0 "key")
  value : Field "" Text o.value (v.field? 1 "value")

/-- its version and its options stand behind the texts of its two selectors -/
@[mk_iff]
structure DiskTemplate.IsReadingOf (t : DiskTemplate) (v : Value) : Prop where
  reference : t.reference.IsReadingOf v
  version : Field 0 Number t.version (v.field? 2 "version")
  options : Field [] (Items TemplateOption.IsReadingOf) t.options (v.field? 3 "options")

@[mk_iff]
structure Schedule.IsReadingOf (s : Schedule) (v : Value) : Prop where
  interval : Field none (Part Word) s.interval (v.field? 0 "interval")
  frequency : Field 0 Number s.frequency (v.field? 1 "frequency")
  time : Field 0 Number s.time (v.field? 2 "time")

@[mk_iff]
structure BackupPolicy.IsReadingOf (p : BackupPolicy) (v : Value) : Prop where
  retention : Field 0 Number p.retention (v.field? 0 "retention")
  schedule : Field none (Part Schedule.IsReadingOf) p.schedule (v.field? 1 "schedule")

@[mk_iff]
structure SystemDisk.IsReadingOf (d : SystemDisk) (v : Value) : Prop where
  name : Field "" Text d.name (v.field? 0 "name")
  size : Field 0 Number d.size (v.field? 1 "size")
  speed : Field "" Text d.speed (v.field? 2 "speed")
  ioProfile : Field none (Part Reference.IsReadingOf) d.ioProfile (v.field? 3 "io_profile")
  fileSystemType : Field "" Text d.fileSystemType (v.field? 4 "file_system_type")
  backupPolicies :
    Field [] (Items BackupPolicy.IsReadingOf) d.backupPolicies (v.field? 5 "backup_policies")

@[mk_iff]
structure Allocation.IsReadingOf (a : Allocation) (v : Value) : Prop where
  type : Field none (Part Word) a.type (v.field? 0 "type")
  ipAddress : Field none (Part Reference.IsReadingOf) a.ipAddress (v.field? 1 "ip_address")
  subnet : Field none (Part Reference.IsReadingOf) a.subnet (v.field? 2 "subnet")
  version : Field none (Part Word) a.version (v.field? 3 "version")

@[mk_iff]
structure NetworkInterface.IsReadingOf (i : NetworkInterface) (v : Value) : Prop where
  network : Field none (Part Reference.IsReadingOf) i.network (v.field? 0 "network")
  virtualNetwork :
    Field none (Part Reference.IsReadingOf) i.virtualNetwork (v.field? 1 "virtual_network")
  speedProfile : Field none (Part Reference.IsReadingOf) i.speedProfile (v.field? 2 "speed_profile")
  allocations :
    Field [] (Items Allocation.IsReadingOf) i.allocations (v.field? 3 "ip_address_allocations")

@[mk_iff]
structure AuthorizedKeys.IsReadingOf (k : AuthorizedKeys) (v : Value) : Prop where
  allUsers : Field false Flag k.users.all (v.field? 0 "all_users")
  users : Field [] (Items Reference.IsReadingOf) k.users.items (v.field? 1 "users")
  allSshKeys : Field false Flag k.sshKeys.all (v.field? 2 "all_ssh_keys")
  sshKeys : Field [] (Items Reference.IsReadingOf) k.sshKeys.items (v.field? 3 "ssh_keys")

/-- every field of the specification is what the value has in its place, or its default -/
@[mk_iff]
structure Spec.IsReadingOf (s : Spec) (v : Value) : Prop where
  zone : Field none (Part Reference.IsReadingOf) s.zone (v.field? 0 "zone")
  dataCenter : Field none (Part Reference.IsReadingOf) s.dataCenter (v.field? 1 "data_center")
  resources : Field none (Part Resources.IsReadingOf) s.resources (v.field? 2 "resources")
  diskTemplate :
    Field none (Part DiskTemplate.IsReadingOf) s.diskTemplate (v.field? 3 "disk_template")
  systemDisks : Field [] (Items SystemDisk.IsReadingOf) s.systemDisks (v.field? 4 "system_disks")
  sharedDisks : Field [] (Items Reference.IsReadingOf) s.sharedDisks (v.field? 5 "shared_disks")
  networkInterfaces :
    Field [] (Items NetworkInterface.IsReadingOf) s.networkInterfaces
      (v.field? 6 "network_interfaces")
  hostname : Field "" Text s.hostname (v.field? 7 "hostname")
  name : Field "" Text s.name (v.field? 8 "name")
  description : Field "" Text s.description (v.field? 9 "description")
  group : Field none (Part Reference.IsReadingOf) s.group (v.field? 10 "group")
  authorizedKeys :
    Field none (Part AuthorizedKeys.IsReadingOf) s.authorizedKeys (v.field? 11 "authorized_keys")
  backupPolicies :
    Field [] (Items BackupPolicy.IsReadingOf) s.backupPolicies (v.field? 12 "backup_policies")
  tags : Field [] (Items Text) s.tags (v.field? 13 "tags")
  iso : Field none (Part Reference.IsReadingOf) s.iso (v.field? 14 "iso")

end MachineSpec
