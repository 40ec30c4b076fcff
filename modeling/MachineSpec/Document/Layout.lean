import MachineSpec.Document.Basic
import MachineSpec.Spec.Basic

/-!
# Specifications as documents

The document of a specification.  What says nothing is left out: an empty text, a zero, a flag that
is not set, an empty list and a missing part have no member.  A reference is written by the one
selector that stands for it, and of a flag and a list only what they grant.

* `Members`             members of a record, in the order in which they are written
* `Members.text`, `number`, `list`, `keyword`, `optional`   one member, or none
* `Spec.toDocument`     the document of a specification, with a report for each reference in it that
                        is not written by its primary selector
-/

namespace MachineSpec

/-- members of a record, in the order in which they are written -/
abbrev Members := List (String × Document)

namespace Members

def text (key s : String) : Members := if s = "" then [] else [(key, .text s)]

def number (key : String) (n : UInt32) : Members := if n = 0 then [] else [(key, .number n)]

def list (key : String) (items : List Document) : Members :=
  if items.isEmpty then [] else [(key, .list items)]

def keyword {α : Type} [Keyword α] (key : String) : Option α → Members
  | none => []
  | some a => [(key, .text (Keyword.word a))]

def optional {α : Type} (key : String) (part : Option α) (f : α → Logged Document) :
    Logged Members :=
  match part with
  | none => pure []
  | some a => do return [(key, ← f a)]

def each {α : Type} (key : String) (parts : List α) (f : α → Logged Document) : Logged Members := do
  return list key (← parts.mapM f)

/-- the record of members that are found one group after the other -/
def record (groups : List (Logged Members)) : Logged Document := do
  return .record (← groups.mapM id).flatten

/-- the selector that stands for an entity, with its text -/
def selected {α : Type} [Lookup α] (a : α) : Logged Members := do
  match ← Lookup.select a with
  | none => return []
  | some s => return [(s.selector, .text s.value)]

/-- what a flag and a list grant -/
def granted {k : Kind} (allKey listKey : String) (a : Access k)
    (f : Reference k → Logged Document) : Logged Members :=
  match a.grant with
  | .all => return [(allKey, .flag true)]
  | .only items => each listKey items f
  | .nothing => return []

end Members

open Members in
def Reference.toDocument {k : Kind} (r : Reference k) : Logged Document := record [selected r]

open Members in
def Resources.toDocument (r : Resources) : Logged Document := record [
  optional "package" r.package Reference.toDocument,
  pure (number "memory" r.memory),
  pure (number "cpu_cores" r.cpuCores)]

def TemplateOption.toDocument (o : TemplateOption) : Document :=
  .record [("key", .text o.key), ("value", .text o.value)]

open Members in
def DiskTemplate.toDocument (t : DiskTemplate) : Logged Document := record [
  selected t,
  pure (number "version" t.version),
  pure (list "options" (t.options.map TemplateOption.toDocument))]

open Members in
def Schedule.toDocument (s : Schedule) : Logged Document := record [
  pure (keyword "interval" s.interval),
  pure (number "frequency" s.frequency),
  pure (number "time" s.time)]

open Members in
def BackupPolicy.toDocument (p : BackupPolicy) : Logged Document := record [
  pure (number "retention" p.retention),
  optional "schedule" p.schedule Schedule.toDocument]

open Members in
def SystemDisk.toDocument (d : SystemDisk) : Logged Document := record [
  pure (text "name" d.name),
  pure (number "size" d.size),
  pure (text "speed" d.speed),
  optional "io_profile" d.ioProfile Reference.toDocument,
  pure (text "file_system_type" d.fileSystemType),
  each "backup_policies" d.backupPolicies BackupPolicy.toDocument]

open Members in
def Allocation.toDocument (a : Allocation) : Logged Document := record [
  pure (keyword "type" a.type),
  optional "ip_address" a.ipAddress Reference.toDocument,
  optional "subnet" a.subnet Reference.toDocument,
  pure (keyword "version" a.version)]

open Members in
def NetworkInterface.toDocument (i : NetworkInterface) : Logged Document := record [
  optional "network" i.network Reference.toDocument,
  optional "virtual_network" i.virtualNetwork Reference.toDocument,
  optional "speed_profile" i.speedProfile Reference.toDocument,
  each "ip_address_allocations" i.allocations Allocation.toDocument]

open Members in
def AuthorizedKeys.toDocument (k : AuthorizedKeys) : Logged Document := record [
  granted "all_users" "users" k.users Reference.toDocument,
  granted "all_ssh_keys" "ssh_keys" k.sshKeys Reference.toDocument]

open Members in
def Spec.toDocument (s : Spec) : Logged Document := record [
  optional "zone" s.zone Reference.toDocument,
  optional "data_center" s.dataCenter Reference.toDocument,
  optional "resources" s.resources Resources.toDocument,
  optional "disk_template" s.diskTemplate DiskTemplate.toDocument,
  each "system_disks" s.systemDisks SystemDisk.toDocument,
  each "shared_disks" s.sharedDisks Reference.toDocument,
  each "network_interfaces" s.networkInterfaces NetworkInterface.toDocument,
  pure (text "hostname" s.hostname),
  pure (text "name" s.name),
  pure (text "description" s.description),
  optional "group" s.group Reference.toDocument,
  optional "authorized_keys" s.authorizedKeys AuthorizedKeys.toDocument,
  each "backup_policies" s.backupPolicies BackupPolicy.toDocument,
  pure (list "tags" (s.tags.map .text)),
  optional "iso" s.iso Reference.toDocument]

end MachineSpec
