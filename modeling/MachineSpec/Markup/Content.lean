import MachineSpec.Markup.Error
import MachineSpec.Spec.Basic
import MachineSpec.Text.Blank

/-!
# Elements as specifications

The specification that an element holds.  An element that holds others gives a rule for each name
that may stand in it; a rule reads a child and says what it changes in what has been read so far.
The first element that breaks a rule is the error.

* `Reading`                                 a value, or the first error, with the reports on the way
* `Element.allow`, `noChildren`, `noText`   what may stand in an element beside its content
* `asText`, `asNumber`, `asKeyword`, `asReference`   an element that holds no others
* `Rule`                                    a child that may stand in an element
* `Element.fields`, `items`, `listOf`       an element that holds others
* `Spec.ofElement`                          the specification of an element
-/

namespace MachineSpec.Markup

/-- a value, or the first error, with the reports made on the way -/
abbrev Reading := ExceptT Error Logged

namespace Element

/-! ## what may stand in an element -/

def allow (e : Element) (keys : List String) : Reading Unit :=
  match e.attributes.find? fun a => !keys.contains a.1 with
  | none => return ()
  | some a => throw (.unknownAttribute e.name a.1)

def unknownChild (e child : Element) : Error := .unknownElement e.name child.name

def noChildren (e : Element) : Reading Unit :=
  match e.children with
  | [] => return ()
  | child :: _ => throw (e.unknownChild child)

/-- there is no text in the element but blanks -/
def noText (e : Element) : Reading Unit :=
  if e.text.toList.all Text.isBlank then return () else throw (.unexpectedText e.name)

/-! ## leaves -/

def asText (e : Element) : Reading String := do
  e.allow []
  e.noChildren
  return e.text

/-- the number that digits stand for, if it fits into 32 bits; a plus sign may stand before them -/
def number? (cs : List Char) : Option UInt32 :=
  let digits := match cs with
    | '+' :: r => r
    | cs => cs
  if digits.isEmpty then none
  else if digits.all Char.isDigit then
    let n := digits.foldl (fun n c => n * 10 + (c.toNat - '0'.toNat)) 0
    if n < UInt32.size then some n.toUInt32 else none
  else none

/-- the number in an element; nothing but blanks is zero -/
def asNumber (e : Element) : Reading UInt32 := do
  let value := Text.trim (← e.asText)
  if value = "" then return 0
  match number? value.toList with
  | some n => return n
  | none => throw (.invalidValue e.name value "a non-negative integer")

/-- the keyword that a text in an element is, up to blanks -/
def keyword {α : Type} [Keyword α] (e : Element) (value : String) : Reading α :=
  match Keyword.ofWord? (Text.trim value) with
  | some a => return a
  | none =>
    throw (.invalidValue e.name value ("one of " ++ ", ".intercalate (Keyword.words α)))

def asKeyword {α : Type} [Keyword α] (e : Element) : Reading α := do
  e.keyword (← e.asText)

def selector (k : Kind) (e : Element) : Reading (Fin k.selectors.length) := do
  e.allow ["by"]
  e.noChildren
  (k.named (e.attribute? "by")).adapt .unsupportedSelector

def asReference {k : Kind} (e : Element) : Reading (Reference k) := do
  return Reference.empty.put (← e.selector k) e.text

end Element

/-! ## elements that hold others -/

/-- a child that may stand in an element: its name, and what it changes in what has been read -/
structure Rule (α : Type) where
  name : String
  read : Element → Reading (α → α)

namespace Rule
variable {α β : Type}

def set (name : String) (read : Element → Reading β) (put : β → α → α) : Rule α :=
  ⟨name, fun child => put <$> read child⟩

/-- a child whose value may be missing, and replaces an earlier one -/
def setSome (name : String) (read : Element → Reading β) (put : Option β → α → α) : Rule α :=
  ⟨name, fun child => (fun b => put (some b)) <$> read child⟩

def item (name : String) (read : Element → Reading α) : Rule (List α) :=
  ⟨name, fun child => (fun a as => as ++ [a]) <$> read child⟩

end Rule

namespace Element
variable {α : Type}

def change (e : Element) (rules : List (Rule α)) (child : Element) : Reading (α → α) :=
  match rules.find? fun r => r.name == child.name with
  | some r => r.read child
  | none => throw (e.unknownChild child)

/-- what the children of an element change, one after the other -/
def changes (e : Element) (rules : List (Rule α)) (start : α) : Reading α := do
  return (← e.children.mapM (e.change rules)).foldl (fun a f => f a) start

/-- an element without attributes and text of its own -/
def fields (e : Element) (rules : List (Rule α)) (start : α) : Reading α := do
  e.allow []
  e.noText
  e.changes rules start

def items (e : Element) (name : String) (read : Element → Reading α) : Reading (List α) := do
  e.noText
  e.changes [.item name read] []

def listOf (name : String) (read : Element → Reading α) (e : Element) : Reading (List α) := do
  e.allow []
  e.items name read

end Element

end MachineSpec.Markup

namespace MachineSpec

open Markup Markup.Element

/-! ## the parts of a specification -/

def Resources.ofElement (e : Element) : Reading Resources := e.fields [
  .setSome "Package" asReference fun p r => { r with package := p },
  .set "Memory" asNumber fun n r => { r with memory := n },
  .set "CPUCores" asNumber fun n r => { r with cpuCores := n }] {}

def TemplateOption.ofElement (e : Element) : Reading TemplateOption := do
  e.allow ["key"]
  e.noChildren
  return { key := (e.attribute? "key").getD "", value := e.text }

def DiskTemplate.selectorRule : Rule DiskTemplate :=
  ⟨"DiskTemplate", fun child => do
    let i ← child.selector .diskTemplate
    return fun t => { t with reference := t.reference.put i child.text }⟩

def DiskTemplate.rules : List (Rule DiskTemplate) := [
  selectorRule,
  .set "Version" asNumber fun n t => { t with version := n },
  .set "Option" TemplateOption.ofElement fun o t => { t with options := t.options ++ [o] }]

def DiskTemplate.ofElement (e : Element) : Reading DiskTemplate := e.fields rules {}

def Schedule.ofElement (e : Element) : Reading Schedule := e.fields [
  .setSome "Interval" asKeyword fun i s => { s with interval := i },
  .set "Frequency" asNumber fun n s => { s with frequency := n },
  .set "Time" asNumber fun n s => { s with time := n }] {}

def BackupPolicy.ofElement (e : Element) : Reading BackupPolicy := e.fields [
  .set "Retention" asNumber fun n p => { p with retention := n },
  .setSome "Schedule" Schedule.ofElement fun s p => { p with schedule := s }] {}

def BackupPolicy.listOf : Element → Reading (List BackupPolicy) :=
  Element.listOf "BackupPolicy" BackupPolicy.ofElement

def SystemDisk.ofElement (e : Element) : Reading SystemDisk := e.fields [
  .set "Name" asText fun s d => { d with name := s },
  .set "Size" asNumber fun n d => { d with size := n },
  .set "Speed" asText fun s d => { d with speed := s },
  .setSome "IOProfile" asReference fun r d => { d with ioProfile := r },
  .set "FileSystemType" asText fun s d => { d with fileSystemType := s },
  .set "BackupPolicies" BackupPolicy.listOf fun ps d =>
    { d with backupPolicies := d.backupPolicies ++ ps }] {}

def Allocation.rules : List (Rule Allocation) := [
  .setSome "IPAddress" asReference fun r a => { a with ipAddress := r },
  .setSome "Subnet" asReference fun r a => { a with subnet := r },
  .setSome "Version" asKeyword fun v a => { a with version := v }]

def Allocation.ofElement (e : Element) : Reading Allocation := do
  e.allow ["type"]
  e.noText
  let type ← (e.attribute? "type").mapM e.keyword
  e.changes rules { type }

def NetworkInterface.ofElement (e : Element) : Reading NetworkInterface := e.fields [
  .setSome "Network" asReference fun r i => { i with network := r },
  .setSome "VirtualNetwork" asReference fun r i => { i with virtualNetwork := r },
  .setSome "SpeedProfile" asReference fun r i => { i with speedProfile := r },
  .set "IPAddressAllocation" Allocation.ofElement fun a i =>
    { i with allocations := i.allocations ++ [a] }] {}

def Access.flag? (value : String) : Option Bool :=
  if value ∈ ["yes", "true", "1"] then some true
  else if value ∈ ["no", "false", "0"] then some false
  else none

def Access.ofElement {k : Kind} (item : String) (e : Element) : Reading (Access k) := do
  e.allow ["all"]
  let all ← match e.attribute? "all" with
    | none => pure false
    | some value =>
      match flag? (Text.trim value) with
      | some all => pure all
      | none => throw (.invalidValue e.name value "yes or no")
  return ⟨all, ← e.items item asReference⟩

def AuthorizedKeys.ofElement (e : Element) : Reading AuthorizedKeys := e.fields [
  .set "Users" (Access.ofElement "User") fun a k => { k with users := a },
  .set "SSHKeys" (Access.ofElement "SSHKey") fun a k => { k with sshKeys := a }] {}

namespace Spec

def asRandom (e : Element) : Reading String := do
  e.allow []
  e.noChildren
  e.noText
  return ""

/-- the host name in an element; one that is random is empty -/
def hostnameOfElement (e : Element) : Reading String := e.fields [
  .set "Hostname" asText fun s _ => s,
  .set "Random" asRandom fun s _ => s] ""

def nameOfElement (e : Element) : Reading String :=
  if e.children.isEmpty then e.asText else e.fields [.set "Name" asText fun s _ => s] ""

def rules : List (Rule Spec) := [
  .setSome "Zone" asReference fun r s => { s with zone := r },
  .setSome "DataCenter" asReference fun r s => { s with dataCenter := r },
  .setSome "Resources" Resources.ofElement fun r s => { s with resources := r },
  .setSome "DiskTemplate" DiskTemplate.ofElement fun t s => { s with diskTemplate := t },
  .set "SystemDisks" (listOf "Disk" SystemDisk.ofElement) fun ds s =>
    { s with systemDisks := s.systemDisks ++ ds },
  .set "SharedDisks" (listOf "Disk" asReference) fun ds s =>
    { s with sharedDisks := s.sharedDisks ++ ds },
  .set "NetworkInterfaces" (listOf "NetworkInterface" NetworkInterface.ofElement) fun is s =>
    { s with networkInterfaces := s.networkInterfaces ++ is },
  .set "Hostname" hostnameOfElement fun h s => { s with hostname := h },
  .set "Name" nameOfElement fun n s => { s with name := n },
  .set "Description" asText fun d s => { s with description := d },
  .setSome "Group" asReference fun r s => { s with group := r },
  .setSome "AuthorizedKeys" AuthorizedKeys.ofElement fun k s => { s with authorizedKeys := k },
  .set "BackupPolicies" BackupPolicy.listOf fun ps s =>
    { s with backupPolicies := s.backupPolicies ++ ps },
  .set "Tags" (listOf "Tag" asText) fun ts s => { s with tags := s.tags ++ ts },
  .setSome "ISO" asReference fun r s => { s with iso := r }]

def ofElement (e : Element) : Reading Spec :=
  if e.name = "VirtualMachineSpec" then e.fields rules {}
  else throw (.unknownElement "document" e.name)

def ofMarkup (source : List Char) : Reading Spec :=
  match Element.ofText source with
  | .ok e => ofElement e
  | .error f => throw (.ofFailure source f)

end Spec

end MachineSpec
