import MachineSpec.Spec.Basic

/-!
# Canonical specifications

What of a specification its written form keeps: of each reference the selector that stands for it,
and of a list beside a flag nothing when the flag is set.  All else is kept.

* `Reference.canonical`, `Access.canonical`   the two places where something is dropped
* `Spec.canonical`                            a specification with nothing left to drop
* `Spec.dropEmptyTags`                        what markup drops beside that
-/

namespace MachineSpec

/-- the reference with its first text only: a text is kept if all texts before it are empty -/
def Reference.canonical {k : Kind} (r : Reference k) : Reference k :=
  ⟨Vector.ofFn fun i => if ∀ j < i, r.values.get j = "" then r.values.get i else ""⟩

/-- no list beside a flag that is set -/
def Access.canonical {k : Kind} (a : Access k) : Access k :=
  if a.all then ⟨true, []⟩ else ⟨false, a.items.map Reference.canonical⟩

def Resources.canonical (r : Resources) : Resources :=
  { r with package := r.package.map Reference.canonical }

def DiskTemplate.canonical (t : DiskTemplate) : DiskTemplate :=
  { t with reference := t.reference.canonical }

def SystemDisk.canonical (d : SystemDisk) : SystemDisk :=
  { d with ioProfile := d.ioProfile.map Reference.canonical }

def Allocation.canonical (a : Allocation) : Allocation :=
  { a with
    ipAddress := a.ipAddress.map Reference.canonical
    subnet := a.subnet.map Reference.canonical }

def NetworkInterface.canonical (i : NetworkInterface) : NetworkInterface :=
  { network := i.network.map Reference.canonical
    virtualNetwork := i.virtualNetwork.map Reference.canonical
    speedProfile := i.speedProfile.map Reference.canonical
    allocations := i.allocations.map Allocation.canonical }

def AuthorizedKeys.canonical (k : AuthorizedKeys) : AuthorizedKeys :=
  ⟨k.users.canonical, k.sshKeys.canonical⟩

/-- a specification with nothing left to drop -/
def Spec.canonical (s : Spec) : Spec :=
  { s with
    zone := s.zone.map Reference.canonical
    dataCenter := s.dataCenter.map Reference.canonical
    resources := s.resources.map Resources.canonical
    diskTemplate := s.diskTemplate.map DiskTemplate.canonical
    systemDisks := s.systemDisks.map SystemDisk.canonical
    sharedDisks := s.sharedDisks.map Reference.canonical
    networkInterfaces := s.networkInterfaces.map NetworkInterface.canonical
    group := s.group.map Reference.canonical
    authorizedKeys := s.authorizedKeys.map AuthorizedKeys.canonical
    iso := s.iso.map Reference.canonical }

/-- the specification without empty tags; an empty text has no element in markup, not even where it
is the item of a list -/
def Spec.dropEmptyTags (s : Spec) : Spec := { s with tags := s.tags.filter (· ≠ "") }

end MachineSpec
