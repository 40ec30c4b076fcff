import MachineSpec.Markup.Node
import MachineSpec.Spec.Basic

/-!
# Specifications as markup

The tree of a specification.  Empty texts, zeros and empty lists have no element, and a list stands
in an element of its own.  The host name is always there: a machine without one gets a random name.

* `Nodes`            elements side by side
* `Nodes.text`, `number`, `keyword`, `selected`, `optional`, `wrapped`   one element, or none
* `Spec.toMarkup`    the tree of a specification, with a report for each time that a reference in it
                     is found to be written by another than its primary selector
-/

namespace MachineSpec

open Markup (Node)

abbrev Nodes := List Node

namespace Nodes

def text (name s : String) : Nodes := if s = "" then [] else [.leaf name [] s]

def number (name : String) (n : UInt32) : Nodes :=
  if n = 0 then [] else [.leaf name [] (toString n.toNat)]

def keyword {α : Type} [Keyword α] (name : String) : Option α → Nodes
  | none => []
  | some a => [.leaf name [] (Keyword.word a)]

/-- an entity by the selector that stands for it -/
def selected {α : Type} [Lookup α] (name : String) (a : α) : Logged Node := do
  match ← Lookup.select a with
  | none => return .lone name []
  | some s =>
    match s.marker? with
    | none => return .leaf name [] s.value
    | some marker => return .leaf name [("by", marker)] s.value

def optional {α : Type} (part : Option α) (f : α → Logged Node) : Logged Nodes :=
  match part with
  | none => pure []
  | some a => do return [← f a]

/-- elements that are found one group after the other -/
def join (groups : List (Logged Nodes)) : Logged Nodes := do
  return (← groups.mapM id).flatten

def element (name : String) (attributes : List (String × String)) (groups : List (Logged Nodes)) :
    Logged Node := do
  return .group name attributes (← join groups)

/-- an element around the elements of a list, unless the list is empty -/
def wrapped {α : Type} (name : String) (items : List α) (f : α → Logged Nodes) : Logged Nodes :=
  if items.isEmpty then pure [] else do return [← element name [] (items.map f)]

/-- an element around one element for each item of a list, unless the list is empty -/
def each {α : Type} (name : String) (items : List α) (f : α → Logged Node) : Logged Nodes :=
  wrapped name items fun a => do return [← f a]

/-- what a flag and a list grant -/
def granted {k : Kind} (name item : String) (a : Access k) : Logged Nodes :=
  match a.grant with
  | .all => return [.lone name [("all", "yes")]]
  | .only items => each name items (selected item)
  | .nothing => return []

/-- the host name; a machine without one gets a random name -/
def host (s : String) : Node :=
  .group "Hostname" [] [if s = "" then .lone "Random" [] else .leaf "Hostname" [] s]

end Nodes

open Nodes in
def Resources.toMarkup (r : Resources) : Logged Node := element "Resources" [] [
  optional r.package (selected "Package"),
  pure (number "Memory" r.memory),
  pure (number "CPUCores" r.cpuCores)]

def TemplateOption.toMarkup (o : TemplateOption) : Node :=
  .leaf "Option" [("key", o.key)] o.value

open Nodes in
/-- the reference in a template, if it has a selector; it is looked for before it is written -/
def DiskTemplate.referenceMarkup (t : DiskTemplate) : Logged Nodes := do
  match ← Lookup.select t with
  | none => return []
  | some _ => return [← selected "DiskTemplate" t]

open Nodes in
def DiskTemplate.toMarkup (t : DiskTemplate) : Logged Node := element "DiskTemplate" [] [
  t.referenceMarkup,
  pure (number "Version" t.version),
  pure (t.options.map TemplateOption.toMarkup)]

open Nodes in
def Schedule.toMarkup (s : Schedule) : Node := .group "Schedule" [] (
  keyword "Interval" s.interval ++
  number "Frequency" s.frequency ++
  number "Time" s.time)

open Nodes in
def BackupPolicy.toMarkup (p : BackupPolicy) : Node := .group "BackupPolicy" [] (
  number "Retention" p.retention ++
  (p.schedule.map Schedule.toMarkup).toList)

open Nodes in
def SystemDisk.toMarkup (d : SystemDisk) : Logged Node := element "Disk" [] [
  pure (text "Name" d.name),
  pure (number "Size" d.size),
  pure (text "Speed" d.speed),
  optional d.ioProfile (selected "IOProfile"),
  pure (text "FileSystemType" d.fileSystemType),
  each "BackupPolicies" d.backupPolicies fun p => pure p.toMarkup]

open Nodes in
def Allocation.toMarkup (a : Allocation) : Logged Node :=
  element "IPAddressAllocation" (a.type.map fun t => ("type", Keyword.word t)).toList [
    optional a.ipAddress (selected "IPAddress"),
    optional a.subnet (selected "Subnet"),
    pure (keyword "Version" a.version)]

open Nodes in
def NetworkInterface.toMarkup (i : NetworkInterface) : Logged Node :=
  element "NetworkInterface" [] [
    optional i.network (selected "Network"),
    optional i.virtualNetwork (selected "VirtualNetwork"),
    optional i.speedProfile (selected "SpeedProfile"),
    i.allocations.mapM Allocation.toMarkup]

open Nodes in
def AuthorizedKeys.toMarkup (k : AuthorizedKeys) : Logged Node := element "AuthorizedKeys" [] [
  granted "Users" "User" k.users,
  granted "SSHKeys" "SSHKey" k.sshKeys]

open Nodes in
def Spec.toMarkup (s : Spec) : Logged Node := element "VirtualMachineSpec" [] [
  optional s.zone (selected "Zone"),
  optional s.dataCenter (selected "DataCenter"),
  optional s.resources Resources.toMarkup,
  optional s.diskTemplate DiskTemplate.toMarkup,
  each "SystemDisks" s.systemDisks SystemDisk.toMarkup,
  each "SharedDisks" s.sharedDisks (selected "Disk"),
  each "NetworkInterfaces" s.networkInterfaces NetworkInterface.toMarkup,
  pure [host s.hostname],
  pure (text "Name" s.name),
  pure (text "Description" s.description),
  optional s.group (selected "Group"),
  optional s.authorizedKeys AuthorizedKeys.toMarkup,
  each "BackupPolicies" s.backupPolicies fun p => pure p.toMarkup,
  wrapped "Tags" s.tags fun t => pure (text "Tag" t),
  optional s.iso (selected "ISO")]

def Markup.declaration : String := "<?xml version=\"1.0\" encoding=\"UTF-8\"?>\n"

end MachineSpec
