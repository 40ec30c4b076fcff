import MachineSpec.Proofs.Reference.Selection

/-!
# Canonical specifications stay canonical

What is dropped once is not there to be dropped again.

* `Spec.canonical_canonical`       being canonical holds from then on
* `Spec.canonical_dropEmptyTags`   it does not matter whether empty tags go first
-/

namespace MachineSpec

theorem map_canonical_canonical {α : Type} {f : α → α} (h : ∀ a, f (f a) = f a) (as : List α) :
    (as.map f).map f = as.map f := by
  rw [List.map_map]
  exact List.map_congr_left fun a _ => h a

theorem optionMap_canonical_canonical {α : Type} {f : α → α} (h : ∀ a, f (f a) = f a)
    (a : Option α) : (a.map f).map f = a.map f := by
  cases a with
  | none => rfl
  | some a => exact congrArg some (h a)

theorem Access.canonical_canonical {k : Kind} (a : Access k) :
    a.canonical.canonical = a.canonical := by
  unfold canonical
  cases ha : a.all with
  | true => rfl
  | false =>
    show Access.mk false ((a.items.map Reference.canonical).map Reference.canonical) = _
    rw [map_canonical_canonical Reference.canonical_canonical]
    rfl

theorem Resources.canonical_canonical (r : Resources) : r.canonical.canonical = r.canonical := by
  unfold canonical
  simp only [optionMap_canonical_canonical Reference.canonical_canonical]

theorem DiskTemplate.canonical_canonical (t : DiskTemplate) :
    t.canonical.canonical = t.canonical := by
  unfold canonical
  simp only [Reference.canonical_canonical]

theorem SystemDisk.canonical_canonical (d : SystemDisk) : d.canonical.canonical = d.canonical := by
  unfold canonical
  simp only [optionMap_canonical_canonical Reference.canonical_canonical]

theorem Allocation.canonical_canonical (a : Allocation) : a.canonical.canonical = a.canonical := by
  unfold canonical
  simp only [optionMap_canonical_canonical Reference.canonical_canonical]

theorem NetworkInterface.canonical_canonical (i : NetworkInterface) :
    i.canonical.canonical = i.canonical := by
  unfold canonical
  simp only [optionMap_canonical_canonical Reference.canonical_canonical,
    map_canonical_canonical Allocation.canonical_canonical]

theorem AuthorizedKeys.canonical_canonical (k : AuthorizedKeys) :
    k.canonical.canonical = k.canonical := by
  unfold canonical
  simp only [Access.canonical_canonical]

namespace Spec

theorem canonical_canonical (s : Spec) : s.canonical.canonical = s.canonical := by
  unfold canonical
  simp only [optionMap_canonical_canonical Reference.canonical_canonical,
    optionMap_canonical_canonical Resources.canonical_canonical,
    optionMap_canonical_canonical DiskTemplate.canonical_canonical,
    optionMap_canonical_canonical AuthorizedKeys.canonical_canonical,
    map_canonical_canonical SystemDisk.canonical_canonical,
    map_canonical_canonical Reference.canonical_canonical,
    map_canonical_canonical NetworkInterface.canonical_canonical]

theorem canonical_dropEmptyTags (s : Spec) :
    s.dropEmptyTags.canonical = s.canonical.dropEmptyTags := rfl

theorem dropEmptyTags_dropEmptyTags (s : Spec) :
    s.dropEmptyTags.dropEmptyTags = s.dropEmptyTags := by
  unfold dropEmptyTags
  simp only [List.filter_filter, Bool.and_self]

end Spec

end MachineSpec
