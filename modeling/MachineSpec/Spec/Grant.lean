import MachineSpec.Reference.Basic

/-!
# Grants

Who is let in, by a flag for everyone and by a list.  The flag wins over the list.

* `Access`         a flag and a list, as they are written down
* `Grant`          what they come to
* `Access.grant`   the grant of a flag and a list
-/

namespace MachineSpec

/-- everyone of a kind, or those on a list -/
structure Access (k : Kind) where
  all : Bool := false
  items : List (Reference k) := []
  deriving DecidableEq, Repr

/-- what a flag and a list come to -/
inductive Grant (α : Type) where
  | all
  | only (items : List α)
  | nothing
  deriving DecidableEq, Repr

namespace Access
variable {k : Kind}

instance : Inhabited (Access k) := ⟨{}⟩

/-- the flag wins over the list, and an empty list grants nothing -/
def grant (a : Access k) : Grant (Reference k) :=
  if a.all then .all else if a.items.isEmpty then .nothing else .only a.items

end Access

end MachineSpec
