import MachineSpec.Spec.Basic

/-!
# Shapes

What a document must look like to stand for a specification: which members a record may have, and
what each of them is.  A member may always be missing.

* `Shape`        the form of a document
* `Kind.shape`   the record of a reference: a text for each selector
* `Spec.shape`   the record of a specification
-/

namespace MachineSpec

/-- the form of a document; the title of a record names it in messages -/
inductive Shape where
  | text
  | number
  | flag
  | choice (words : List String)
  | list (item : Shape)
  | record (title : String) (fields : List (String × Shape))
  deriving Repr, Inhabited

/-- a text for each selector -/
def Kind.shape (k : Kind) : Shape := .record k.typeName (k.selectors.map (·, .text))

def Keyword.shape (α : Type) [Keyword α] : Shape := .choice (Keyword.words α)

def Resources.shape : Shape := .record "Resources" [
  ("package", Kind.package.shape),
  ("memory", .number),
  ("cpu_cores", .number)]

def TemplateOption.shape : Shape := .record "DiskTemplateOption" [
  ("key", .text),
  ("value", .text)]

def DiskTemplate.shape : Shape := .record "DiskTemplate" (
  Kind.diskTemplate.selectors.map (·, .text) ++ [
    ("version", .number),
    ("options", .list TemplateOption.shape)])

def Schedule.shape : Shape := .record "Schedule" [
  ("interval", Keyword.shape Interval),
  ("frequency", .number),
  ("time", .number)]

def BackupPolicy.shape : Shape := .record "BackupPolicy" [
  ("retention", .number),
  ("schedule", Schedule.shape)]

def SystemDisk.shape : Shape := .record "SystemDisk" [
  ("name", .text),
  ("size", .number),
  ("speed", .text),
  ("io_profile", Kind.ioProfile.shape),
  ("file_system_type", .text),
  ("backup_policies", .list BackupPolicy.shape)]

def Allocation.shape : Shape := .record "IpAddressAllocation" [
  ("type", Keyword.shape AllocationType),
  ("ip_address", Kind.ipAddress.shape),
  ("subnet", Kind.subnet.shape),
  ("version", Keyword.shape IpVersion)]

def NetworkInterface.shape : Shape := .record "NetworkInterface" [
  ("network", Kind.network.shape),
  ("virtual_network", Kind.virtualNetwork.shape),
  ("speed_profile", Kind.speedProfile.shape),
  ("ip_address_allocations", .list Allocation.shape)]

def AuthorizedKeys.shape : Shape := .record "AuthorizedKeys" [
  ("all_users", .flag),
  ("users", .list Kind.user.shape),
  ("all_ssh_keys", .flag),
  ("ssh_keys", .list Kind.sshKey.shape)]

def Spec.shape : Shape := .record "VirtualMachineSpec" [
  ("zone", Kind.zone.shape),
  ("data_center", Kind.dataCenter.shape),
  ("resources", Resources.shape),
  ("disk_template", DiskTemplate.shape),
  ("system_disks", .list SystemDisk.shape),
  ("shared_disks", .list Kind.sharedDisk.shape),
  ("network_interfaces", .list NetworkInterface.shape),
  ("hostname", .text),
  ("name", .text),
  ("description", .text),
  ("group", Kind.group.shape),
  ("authorized_keys", AuthorizedKeys.shape),
  ("backup_policies", .list BackupPolicy.shape),
  ("tags", .list .text),
  ("iso", Kind.iso.shape)]

end MachineSpec
