import MachineSpec.Spec.Basic

/-!
# The references in a specification

What holds of every reference in a specification, wherever it stands, as a property for each kind.

* `Reference.Exclusive`   at most one selector has a text
* `Spec.Each`             a property of every reference in a specification
* `Resources.Each`, `NetworkInterface.Each`, ...   the same for its parts
-/

namespace MachineSpec

/-- at most one selector has a text -/
def Reference.Exclusive {k : Kind} (r : Reference k) : Prop :=
  ∀ i j : Fin k.selectors.length, r.values.get i ≠ "" → r.values.get j ≠ "" → i = j

instance {k : Kind} (r : Reference k) : Decidable r.Exclusive :=
  Nat.decidableForallFin _

section each
variable (p : (k : Kind) → Reference k → Prop)

structure Resources.Each (r : Resources) : Prop where
  package : ∀ x ∈ r.package, p .package x

structure SystemDisk.Each (d : SystemDisk) : Prop where
  ioProfile : ∀ x ∈ d.ioProfile, p .ioProfile x

structure Allocation.Each (a : Allocation) : Prop where
  ipAddress : ∀ x ∈ a.ipAddress, p .ipAddress x
  subnet : ∀ x ∈ a.subnet, p .subnet x

structure NetworkInterface.Each (i : NetworkInterface) : Prop where
  network : ∀ x ∈ i.network, p .network x
  virtualNetwork : ∀ x ∈ i.virtualNetwork, p .virtualNetwork x
  speedProfile : ∀ x ∈ i.speedProfile, p .speedProfile x
  allocations : ∀ a ∈ i.allocations, a.Each p

structure AuthorizedKeys.Each (k : AuthorizedKeys) : Prop where
  users : ∀ x ∈ k.users.items, p .user x
  sshKeys : ∀ x ∈ k.sshKeys.items, p .sshKey x

/-- the property holds of every reference in the specification -/
structure Spec.Each (s : Spec) : Prop where
  zone : ∀ x ∈ s.zone, p .zone x
  dataCenter : ∀ x ∈ s.dataCenter, p .dataCenter x
  resources : ∀ r ∈ s.resources, r.Each p
  diskTemplate : ∀ t ∈ s.diskTemplate, p .diskTemplate t.reference
  systemDisks : ∀ d ∈ s.systemDisks, d.Each p
  sharedDisks : ∀ x ∈ s.sharedDisks, p .sharedDisk x
  networkInterfaces : ∀ i ∈ s.networkInterfaces, i.Each p
  group : ∀ x ∈ s.group, p .group x
  authorizedKeys : ∀ k ∈ s.authorizedKeys, k.Each p
  iso : ∀ x ∈ s.iso, p .iso x

end each

/-- every reference in the specification has at most one text -/
def Spec.Exclusive (s : Spec) : Prop := s.Each fun _ x => x.Exclusive

end MachineSpec
