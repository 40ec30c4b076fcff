import MachineSpec.Markup.Element
import MachineSpec.Spec.Basic
import MachineSpec.Text.Blank

/-!
# The grammar of specifications in markup

Which elements hold a specification, told without reading one.  An element of a grammar has known
attributes only, each with a value that it may have, and is either a leaf, with a text and no
children, or a holder, with children of known names and nothing but blanks between them.

* `Element.Distinct`    no two attributes of an element, or of one in it, have the same name
* `IsNumeral`           the texts of a number
* `Grammar`             a leaf, a holder, or what is the one or the other
* `Grammar.Conforms`    the elements of a grammar
* `Spec.grammar`        the grammar of the root, from those of its parts
-/

namespace MachineSpec.Markup

/-- no two attributes of the element, or of one in it, have the same name -/
inductive Element.Distinct : Element → Prop
  | intro {e : Element} (keys : (e.attributes.map Prod.fst).Nodup)
      (children : ∀ child ∈ e.children, Distinct child) : Distinct e

/-- digits that spell a number of 32 bits -/
def FitsWord (digits : List Char) : Prop :=
  digits ≠ [] ∧ (∀ c ∈ digits, c.isDigit = true) ∧ Nat.ofDigitChars 10 digits 0 ≤ 4294967295

/-- nothing, or a number of 32 bits behind a plus sign or without one -/
def IsNumeral (s : String) : Prop :=
  s = "" ∨ ∃ digits, (s.toList = digits ∨ s.toList = '+' :: digits) ∧ FitsWord digits

/-- names, each with the values that may stand there -/
abbrev Grammar.Attributes := List (String × (String → Prop))

/-- what an element may look like -/
inductive Grammar where
  | leaf (attributes : Grammar.Attributes) (text : String → Prop)
  | holder (attributes : Grammar.Attributes) (parts : List (String × Grammar))
  /-- a leaf if it has no children, and otherwise a holder -/
  | either (leaf holder : Grammar)

namespace Grammar

/-- every attribute of the element is known and has a value that it may have -/
def Attributes.Know (attributes : Attributes) (e : Element) : Prop :=
  ∀ a ∈ e.attributes, ∃ values, (a.1, values) ∈ attributes ∧ values a.2

/-- the elements of a grammar -/
inductive Conforms : Grammar → Element → Prop
  | leaf {attributes : Attributes} {text : String → Prop} {e : Element}
      (known : attributes.Know e) (childless : e.children = []) (value : text e.text) :
      Conforms (.leaf attributes text) e
  | holder {attributes : Attributes} {parts : List (String × Grammar)} {e : Element}
      (known : attributes.Know e) (blank : ∀ c ∈ e.text.toList, Text.isBlank c = true)
      (listed : ∀ child ∈ e.children, child.name ∈ parts.map Prod.fst)
      (children : ∀ child ∈ e.children, ∀ g, parts.lookup child.name = some g → Conforms g child) :
      Conforms (.holder attributes parts) e
  | childless {l h : Grammar} {e : Element} (none : e.children = []) (leaf : Conforms l e) :
      Conforms (.either l h) e
  | parent {l h : Grammar} {e : Element} (some : e.children ≠ []) (holder : Conforms h e) :
      Conforms (.either l h) e

/-! ## leaves -/

def text : Grammar := .leaf [] fun _ => True

def number : Grammar := .leaf [] fun s => IsNumeral (Text.trim s)

def keyword (α : Type) [Keyword α] : Grammar := .leaf [] fun s => Text.trim s ∈ Keyword.words α

/-- a text under a selector, which a marker names -/
def reference (k : Kind) : Grammar := .leaf [("by", (· ∈ k.selectors))] fun _ => True

/-! ## holders -/

/-- an element that holds others and has no attributes -/
def fields (parts : List (String × Grammar)) : Grammar := .holder [] parts

def listOf (item : String) (g : Grammar) : Grammar := fields [(item, g)]

end Grammar

end MachineSpec.Markup

namespace MachineSpec

open Markup Grammar

/-! ## the parts of a specification -/

def Resources.grammar : Grammar := fields [
  ("Package", reference .package),
  ("Memory", number),
  ("CPUCores", number)]

def TemplateOption.grammar : Grammar := .leaf [("key", fun _ => True)] fun _ => True

def DiskTemplate.grammar : Grammar := fields [
  ("DiskTemplate", Grammar.reference .diskTemplate),
  ("Version", number),
  ("Option", TemplateOption.grammar)]

def Schedule.grammar : Grammar := fields [
  ("Interval", keyword Interval),
  ("Frequency", number),
  ("Time", number)]

def BackupPolicy.grammar : Grammar := fields [
  ("Retention", number),
  ("Schedule", Schedule.grammar)]

def SystemDisk.grammar : Grammar := fields [
  ("Name", text),
  ("Size", number),
  ("Speed", text),
  ("IOProfile", reference .ioProfile),
  ("FileSystemType", text),
  ("BackupPolicies", listOf "BackupPolicy" BackupPolicy.grammar)]

def Allocation.grammar : Grammar :=
  .holder [("type", fun s => Text.trim s ∈ Keyword.words AllocationType)] [
    ("IPAddress", reference .ipAddress),
    ("Subnet", reference .subnet),
    ("Version", keyword IpVersion)]

def NetworkInterface.grammar : Grammar := fields [
  ("Network", reference .network),
  ("VirtualNetwork", reference .virtualNetwork),
  ("SpeedProfile", reference .speedProfile),
  ("IPAddressAllocation", Allocation.grammar)]

def Access.grammar (k : Kind) (item : String) : Grammar :=
  .holder [("all", fun s => Text.trim s ∈ ["yes", "true", "1", "no", "false", "0"])]
    [(item, reference k)]

def AuthorizedKeys.grammar : Grammar := fields [
  ("Users", Access.grammar .user "User"),
  ("SSHKeys", Access.grammar .sshKey "SSHKey")]

namespace Spec

/-- an element that holds nothing and says nothing -/
def randomGrammar : Grammar := fields []

def hostnameGrammar : Grammar := fields [
  ("Hostname", text),
  ("Random", randomGrammar)]

def nameGrammar : Grammar := .either text (fields [("Name", text)])

def grammar : Grammar := fields [
  ("Zone", reference .zone),
  ("DataCenter", reference .dataCenter),
  ("Resources", Resources.grammar),
  ("DiskTemplate", DiskTemplate.grammar),
  ("SystemDisks", listOf "Disk" SystemDisk.grammar),
  ("SharedDisks", listOf "Disk" (reference .sharedDisk)),
  ("NetworkInterfaces", listOf "NetworkInterface" NetworkInterface.grammar),
  ("Hostname", hostnameGrammar),
  ("Name", nameGrammar),
  ("Description", text),
  ("Group", reference .group),
  ("AuthorizedKeys", AuthorizedKeys.grammar),
  ("BackupPolicies", listOf "BackupPolicy" BackupPolicy.grammar),
  ("Tags", listOf "Tag" text),
  ("ISO", reference .iso)]

end Spec

end MachineSpec
