import MachineSpec.Document.Basic
import MachineSpec.Spec.Basic

/-!
# Documents as specifications

The specification that a document of its shape stands for.  A missing member reads as the zero of
its sort, so the functions are total; on a document of another shape they make of it what they can.

* `Document.partAt`         a part that a member holds, if the member is there
* `Document.keywordAt`      the keyword that a member holds
* `Spec.ofDocument`         the specification of a document
-/

namespace MachineSpec

namespace Document

def partAt {α : Type} (d : Document) (key : String) (f : Document → α) : Option α :=
  (d.member? key).map f

def partsAt {α : Type} (d : Document) (key : String) (f : Document → α) : List α :=
  (d.listAt key).map f

def keywordAt {α : Type} [Keyword α] (d : Document) (key : String) : Option α :=
  (d.member? key).bind fun m => Keyword.ofWord? m.asText

end Document

def Reference.ofDocument {k : Kind} (d : Document) : Reference k :=
  ⟨Vector.ofFn fun i => d.textAt (k.selectors.get i)⟩

def Resources.ofDocument (d : Document) : Resources :=
  { package := d.partAt "package" Reference.ofDocument
    memory := d.numberAt "memory"
    cpuCores := d.numberAt "cpu_cores" }

def TemplateOption.ofDocument (d : Document) : TemplateOption :=
  { key := d.textAt "key"
    value := d.textAt "value" }

def DiskTemplate.ofDocument (d : Document) : DiskTemplate :=
  { reference := Reference.ofDocument d
    version := d.numberAt "version"
    options := d.partsAt "options" TemplateOption.ofDocument }

def Schedule.ofDocument (d : Document) : Schedule :=
  { interval := d.keywordAt "interval"
    frequency := d.numberAt "frequency"
    time := d.numberAt "time" }

def BackupPolicy.ofDocument (d : Document) : BackupPolicy :=
  { retention := d.numberAt "retention"
    schedule := d.partAt "schedule" Schedule.ofDocument }

def SystemDisk.ofDocument (d : Document) : SystemDisk :=
  { name := d.textAt "name"
    size := d.numberAt "size"
    speed := d.textAt "speed"
    ioProfile := d.partAt "io_profile" Reference.ofDocument
    fileSystemType := d.textAt "file_system_type"
    backupPolicies := d.partsAt "backup_policies" BackupPolicy.ofDocument }

def Allocation.ofDocument (d : Document) : Allocation :=
  { type := d.keywordAt "type"
    ipAddress := d.partAt "ip_address" Reference.ofDocument
    subnet := d.partAt "subnet" Reference.ofDocument
    version := d.keywordAt "version" }

def NetworkInterface.ofDocument (d : Document) : NetworkInterface :=
  { network := d.partAt "network" Reference.ofDocument
    virtualNetwork := d.partAt "virtual_network" Reference.ofDocument
    speedProfile := d.partAt "speed_profile" Reference.ofDocument
    allocations := d.partsAt "ip_address_allocations" Allocation.ofDocument }

def AuthorizedKeys.ofDocument (d : Document) : AuthorizedKeys :=
  { users := ⟨d.flagAt "all_users", d.partsAt "users" Reference.ofDocument⟩
    sshKeys := ⟨d.flagAt "all_ssh_keys", d.partsAt "ssh_keys" Reference.ofDocument⟩ }

def Spec.ofDocument (d : Document) : Spec :=
  { zone := d.partAt "zone" Reference.ofDocument
    dataCenter := d.partAt "data_center" Reference.ofDocument
    resources := d.partAt "resources" Resources.ofDocument
    diskTemplate := d.partAt "disk_template" DiskTemplate.ofDocument
    systemDisks := d.partsAt "system_disks" SystemDisk.ofDocument
    sharedDisks := d.partsAt "shared_disks" Reference.ofDocument
    networkInterfaces := d.partsAt "network_interfaces" NetworkInterface.ofDocument
    hostname := d.textAt "hostname"
    name := d.textAt "name"
    description := d.textAt "description"
    group := d.partAt "group" Reference.ofDocument
    authorizedKeys := d.partAt "authorized_keys" AuthorizedKeys.ofDocument
    backupPolicies := d.partsAt "backup_policies" BackupPolicy.ofDocument
    tags := d.partsAt "tags" Document.asText
    iso := d.partAt "iso" Reference.ofDocument }

end MachineSpec
