import MachineSpec.Markup.Error
import MachineSpec.Markup.Grammar

/-!
# What is wrong with an element

The faults of a tree of elements, told without reading a specification from it.  The place of an
element in the tree gives it a role: what is looked at in it, one thing after the other, and the
roles of the elements in it by their names.  An element whose name is not listed where it stands has
no role and is wrong by itself.

* `Demand`, `Demand.error?`   what is looked at in an element, and its error if it is not met
* `Role`                      what is looked at in an element and in those in it
* `Visit`, `Visit.error?`     an element in its place, and what is wrong with the element itself
* `Element.visits`            every element of a tree in the order of the start tags
* `Spec.role`                 the role of the root, from those of its parts
-/

namespace MachineSpec

namespace Markup

/-! ## numerals -/

theorem fitsWord_iff {digits : List Char} :
    FitsWord digits ↔ digits ≠ [] ∧ digits.all Char.isDigit = true ∧
      Nat.ofDigitChars 10 digits 0 ≤ 4294967295 := by
  unfold FitsWord
  rw [List.all_eq_true]

instance : DecidablePred FitsWord := fun _ => decidable_of_iff _ fitsWord_iff.symm

theorem isNumeral_iff {s : String} :
    IsNumeral s ↔ s = "" ∨ FitsWord s.toList ∨
      s.toList.head? = some '+' ∧ FitsWord s.toList.tail := by
  refine or_congr_right ⟨?_, ?_⟩
  · rintro ⟨digits, h | h, hd⟩
    · exact .inl (h ▸ hd)
    · exact .inr (by rw [h]; exact ⟨rfl, hd⟩)
  · rintro (hd | ⟨hplus, hd⟩)
    · exact ⟨_, .inl rfl, hd⟩
    · refine ⟨_, .inr ?_, hd⟩
      cases hs : s.toList with
      | nil => rw [hs] at hplus; cases hplus
      | cons c digits =>
        rw [hs] at hplus
        rw [Option.some.inj hplus]
        rfl

instance : DecidablePred IsNumeral := fun _ => decidable_of_iff _ isNumeral_iff.symm

/-! ## what is looked at in an element -/

inductive Demand where
  /-- there are no attributes but these -/
  | attributes (keys : List String)
  | childless
  /-- there is no text but blanks -/
  | blank
  /-- the same, but only if there are children -/
  | blankBesideChildren
  | number
  | keyword (words : List String)
  /-- if the attribute is there, its value is one of the words -/
  | attributeKeyword (key : String) (words : List String)
  /-- if the attribute is there, its value is a yes or a no -/
  | flag (key : String)
  /-- if a marker is there, it is a selector of the kind -/
  | marker (kind : Kind)
  deriving Repr

namespace Demand

/-- the value of an element or of one of its attributes is not what was expected, blanks aside -/
def valueError? (e : Element) (values : List String) (expected value : String) : Option Error :=
  if Text.trim value ∈ values then none else some (.invalidValue e.name value expected)

def keywordError? (e : Element) (words : List String) (value : String) : Option Error :=
  valueError? e words ("one of " ++ ", ".intercalate words) value

def blankError? (e : Element) : Option Error :=
  if e.text.toList.all Text.isBlank then none else some (.unexpectedText e.name)

/-- the error of an element in which the demand is not met -/
def error? (e : Element) : Demand → Option Error
  | .attributes keys =>
    (e.attributes.find? fun a => a.1 ∉ keys).map fun a => .unknownAttribute e.name a.1
  | .childless => e.children.head?.map fun child => .unknownElement e.name child.name
  | .blank => blankError? e
  | .blankBesideChildren => if e.children = [] then none else blankError? e
  | .number =>
    if IsNumeral (Text.trim e.text) then none
    else some (.invalidValue e.name (Text.trim e.text) "a non-negative integer")
  | .keyword words => keywordError? e words e.text
  | .attributeKeyword key words => (e.attribute? key).bind (keywordError? e words)
  | .flag key =>
    (e.attribute? key).bind
      (valueError? e ["yes", "true", "1", "no", "false", "0"] "yes or no")
  | .marker kind =>
    ((e.attribute? "by").filter (· ∉ kind.selectors)).map fun marker =>
      .unsupportedSelector ⟨kind, marker⟩

end Demand

/-- what is looked at in an element, one thing after the other, and the roles of the elements in it
by their names -/
inductive Role where
  | mk (demands : List Demand) (parts : List (String × Role))

namespace Role

def demands : Role → List Demand
  | .mk ds _ => ds

def parts : Role → List (String × Role)
  | .mk _ ps => ps

/-! ## leaves -/

def leaf (keys : List String) (value : List Demand) : Role :=
  .mk (.attributes keys :: .childless :: value) []

def text : Role := leaf [] []

def number : Role := leaf [] [.number]

def keyword (α : Type) [Keyword α] : Role := leaf [] [.keyword (Keyword.words α)]

def reference (k : Kind) : Role := leaf ["by"] [.marker k]

/-! ## holders -/

def fields (parts : List (String × Role)) : Role := .mk [.attributes [], .blank] parts

def listOf (item : String) (role : Role) : Role := fields [(item, role)]

end Role

/-! ## elements in their places -/

/-- an element in its place: the name of what it stands in, and its role if its name is listed
there -/
structure Visit where
  parent : String
  role? : Option Role
  element : Element

/-- what is wrong with the element itself: its name, or else the first demand that is not met -/
def Visit.error? (v : Visit) : Option Error :=
  match v.role? with
  | none => some (.unknownElement v.parent v.element.name)
  | some role => role.demands.findSome? (Demand.error? v.element)

namespace Element

mutual

/-- an element and those in it, in the order of the start tags -/
def visits (parent : String) (role? : Option Role) : Element → List Visit
  | .mk name attributes text children =>
    ⟨parent, role?, .mk name attributes text children⟩ ::
      childVisits name (role?.elim [] Role.parts) children

def childVisits (parent : String) (parts : List (String × Role)) : List Element → List Visit
  | [] => []
  | child :: children =>
    visits parent (parts.lookup child.name) child ++ childVisits parent parts children

end

end Element

end Markup

open Markup Role

/-! ## the parts of a specification -/

def Resources.role : Role := fields [
  ("Package", reference .package),
  ("Memory", number),
  ("CPUCores", number)]

def TemplateOption.role : Role := leaf ["key"] []

def DiskTemplate.role : Role := fields [
  ("DiskTemplate", Role.reference .diskTemplate),
  ("Version", number),
  ("Option", TemplateOption.role)]

def Schedule.role : Role := fields [
  ("Interval", keyword Interval),
  ("Frequency", number),
  ("Time", number)]

def BackupPolicy.role : Role := fields [
  ("Retention", number),
  ("Schedule", Schedule.role)]

def SystemDisk.role : Role := fields [
  ("Name", text),
  ("Size", number),
  ("Speed", text),
  ("IOProfile", reference .ioProfile),
  ("FileSystemType", text),
  ("BackupPolicies", listOf "BackupPolicy" BackupPolicy.role)]

/-- the type is looked at behind the text -/
def Allocation.role : Role :=
  .mk [.attributes ["type"], .blank, .attributeKeyword "type" (Keyword.words AllocationType)] [
    ("IPAddress", reference .ipAddress),
    ("Subnet", reference .subnet),
    ("Version", keyword IpVersion)]

def NetworkInterface.role : Role := fields [
  ("Network", reference .network),
  ("VirtualNetwork", reference .virtualNetwork),
  ("SpeedProfile", reference .speedProfile),
  ("IPAddressAllocation", Allocation.role)]

/-- the flag is looked at before the text -/
def Access.role (k : Kind) (item : String) : Role :=
  .mk [.attributes ["all"], .flag "all", .blank] [(item, reference k)]

def AuthorizedKeys.role : Role := fields [
  ("Users", Access.role .user "User"),
  ("SSHKeys", Access.role .sshKey "SSHKey")]

namespace Spec

def randomRole : Role := leaf [] [.blank]

def hostnameRole : Role := fields [
  ("Hostname", text),
  ("Random", randomRole)]

/-- a text, or an element of the same name around it -/
def nameRole : Role := .mk [.attributes [], .blankBesideChildren] [("Name", text)]

def role : Role := fields [
  ("Zone", reference .zone),
  ("DataCenter", reference .dataCenter),
  ("Resources", Resources.role),
  ("DiskTemplate", DiskTemplate.role),
  ("SystemDisks", listOf "Disk" SystemDisk.role),
  ("SharedDisks", listOf "Disk" (reference .sharedDisk)),
  ("NetworkInterfaces", listOf "NetworkInterface" NetworkInterface.role),
  ("Hostname", hostnameRole),
  ("Name", nameRole),
  ("Description", text),
  ("Group", reference .group),
  ("AuthorizedKeys", AuthorizedKeys.role),
  ("BackupPolicies", listOf "BackupPolicy" BackupPolicy.role),
  ("Tags", listOf "Tag" text),
  ("ISO", reference .iso)]

/-- the elements of a document, in the order of the start tags -/
def visits (root : Element) : List Visit :=
  root.visits "document" ([("VirtualMachineSpec", role)].lookup root.name)

end Spec

end MachineSpec
