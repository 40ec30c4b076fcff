/-!
# Kinds of references

What a reference can point to, and by which selectors.  A kind lists its selectors with the most
specific first; that one is the primary selector and is meant when no selector is named.

* `Kind.name`        the name of a kind in messages
* `Kind.typeName`    the name that a mismatch of the written form reports
* `Kind.selectors`   the selectors of a kind, most specific first
* `Kind.primary`     the first of them
-/

namespace MachineSpec

inductive Kind where
  | zone
  | dataCenter
  | package
  | diskTemplate
  | ioProfile
  | sharedDisk
  | network
  | virtualNetwork
  | speedProfile
  | ipAddress
  | subnet
  | group
  | user
  | sshKey
  | iso
  deriving DecidableEq, Repr

namespace Kind

def all : List Kind :=
  [.zone, .dataCenter, .package, .diskTemplate, .ioProfile, .sharedDisk, .network, .virtualNetwork,
    .speedProfile, .ipAddress, .subnet, .group, .user, .sshKey, .iso]

def name : Kind → String
  | .zone => "Zone"
  | .dataCenter => "DataCenter"
  | .package => "Package"
  | .diskTemplate => "DiskTemplate"
  | .ioProfile => "DiskIOProfile"
  | .sharedDisk => "SharedDisk"
  | .network => "Network"
  | .virtualNetwork => "VirtualNetwork"
  | .speedProfile => "NetworkSpeedProfile"
  | .ipAddress => "IPAddress"
  | .subnet => "Subnet"
  | .group => "Group"
  | .user => "User"
  | .sshKey => "SSHKey"
  | .iso => "ISO"

/-- the name that a mismatch of the written form reports -/
def typeName : Kind → String
  | .ioProfile => "DiskIoProfile"
  | .ipAddress => "IpAddress"
  | .sshKey => "SshKey"
  | .iso => "Iso"
  | k => k.name

/-- the selectors of a kind, most specific first -/
def selectors : Kind → List String
  | .zone | .dataCenter | .iso => ["id", "name", "permalink"]
  | .package | .diskTemplate | .ioProfile | .network | .speedProfile => ["id", "permalink"]
  | .sharedDisk | .virtualNetwork | .group => ["id", "name"]
  | .ipAddress | .subnet => ["id", "address"]
  | .user => ["id", "email_address"]
  | .sshKey => ["id"]

/-- the selector that is meant when none is named -/
def primary (k : Kind) : String := k.selectors.headD ""

theorem head?_selectors (k : Kind) : k.selectors.head? = some k.primary := by cases k <;> rfl

theorem selectors_nodup (k : Kind) : k.selectors.Nodup := by cases k <;> decide

theorem empty_not_mem_selectors (k : Kind) : "" ∉ k.selectors := by cases k <;> decide

def ofName? (s : String) : Option Kind := all.find? fun k => k.name == s

end Kind

end MachineSpec
