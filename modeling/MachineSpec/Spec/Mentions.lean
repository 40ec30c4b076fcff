import MachineSpec.Spec.Basic

/-!
# References that are written

The references that a written specification names, in the order of its fields.  Those on a list
beside a flag that is set are not among them.

* `Reference.leading?`   the most specific selector with a text
* `Mention`              a reference, with its kind
* `Mention.reports`      what is reported of a reference that is written
* `Spec.mentions`        the references of a specification that are written
* `Resources.mentions`, `NetworkInterface.mentions`, ...   those of its parts
-/

namespace MachineSpec

/-- the most specific selector with a text -/
def Reference.leading? {k : Kind} (r : Reference k) : Option String :=
  k.selectors.find? fun name => (r.get? name).any (· ≠ "")

/-- a reference, with its kind -/
structure Mention where
  kind : Kind
  reference : Reference kind

/-- a reference is reported unless its most specific selector with a text is the primary one -/
def Mention.reports (m : Mention) : List Log.Entry :=
  match m.reference.leading? with
  | some name => if name = m.kind.primary then [] else [.selected m.kind name]
  | none => []

def Resources.mentions (r : Resources) : List Mention := r.package.toList.map (.mk _)

def DiskTemplate.mention (t : DiskTemplate) : Mention := ⟨.diskTemplate, t.reference⟩

def SystemDisk.mentions (d : SystemDisk) : List Mention := d.ioProfile.toList.map (.mk _)

def Allocation.mentions (a : Allocation) : List Mention :=
  a.ipAddress.toList.map (.mk _) ++ a.subnet.toList.map (.mk _)

def NetworkInterface.mentions (i : NetworkInterface) : List Mention :=
  i.network.toList.map (.mk _) ++ i.virtualNetwork.toList.map (.mk _) ++
    i.speedProfile.toList.map (.mk _) ++ i.allocations.flatMap Allocation.mentions

/-- a flag that is set stands for the list beside it -/
def Access.mentions {k : Kind} (a : Access k) : List Mention :=
  if a.all then [] else a.items.map (.mk _)

def AuthorizedKeys.mentions (k : AuthorizedKeys) : List Mention :=
  k.users.mentions ++ k.sshKeys.mentions

namespace Spec

def mentionsBefore (s : Spec) : List Mention :=
  s.zone.toList.map (.mk _) ++ s.dataCenter.toList.map (.mk _) ++
    s.resources.toList.flatMap Resources.mentions

def templateMention (s : Spec) : List Mention := s.diskTemplate.toList.map DiskTemplate.mention

def mentionsBehind (s : Spec) : List Mention :=
  s.systemDisks.flatMap SystemDisk.mentions ++ s.sharedDisks.map (.mk _) ++
    s.networkInterfaces.flatMap NetworkInterface.mentions ++ s.group.toList.map (.mk _) ++
    s.authorizedKeys.toList.flatMap AuthorizedKeys.mentions ++ s.iso.toList.map (.mk _)

/-- the references of a specification that are written, in the order of its fields: those before
the template of the first disk, the template, and those behind it -/
def mentions (s : Spec) : List Mention :=
  s.mentionsBefore ++ s.templateMention ++ s.mentionsBehind

end Spec

end MachineSpec
