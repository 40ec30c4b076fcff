import MachineSpec.Proofs.Translation

/-!
# Grants outlast translations

Writing a flag and a list drops the list beside a flag that is set, and of each entry of a list all
but the selector that stands for it.  Neither changes what the two grant, so however a specification
is translated, the same people are let in.

* `Grant.admits`       whom a grant lets in
* `Grant.Persists`     a grant that lets in the same as an earlier one
* `Access.persists`    a written flag and list grant what they granted before
* `Spec.relay_grants`  the grants of a specification after each step through some formats
-/

namespace MachineSpec

namespace Grant
variable {k : Kind}

/-- does a grant let in whoever a selection stands for -/
def admits (g : Grant (Reference k)) (s : Selection) : Prop :=
  match g with
  | .all => True
  | .only items => ∃ r ∈ items, r.selection? = some s
  | .nothing => False

/-- a grant that lets in the same as an earlier one: everyone, no one, or the entries of a list in
their order, each by the selector that stands for it -/
structure Persists (before after : Grant (Reference k)) : Prop where
  all : after = .all ↔ before = .all
  nothing : after = .nothing ↔ before = .nothing
  only : ∀ items, after = .only items ↔
    ∃ earlier, before = .only earlier ∧ items = earlier.map Reference.canonical
  admits : ∀ s, after.admits s ↔ before.admits s

theorem persists_all : Persists (.all : Grant (Reference k)) .all where
  all := Iff.rfl
  nothing := Iff.rfl
  only items := ⟨fun h => (by cases h), fun ⟨_, h, _⟩ => (by cases h)⟩
  admits _ := Iff.rfl

theorem persists_nothing : Persists (.nothing : Grant (Reference k)) .nothing where
  all := Iff.rfl
  nothing := Iff.rfl
  only items := ⟨fun h => (by cases h), fun ⟨_, h, _⟩ => (by cases h)⟩
  admits _ := Iff.rfl

/-- an entry keeps its selection when it becomes canonical -/
theorem persists_only (items : List (Reference k)) :
    Persists (.only items) (.only (items.map Reference.canonical)) where
  all := ⟨fun h => (by cases h), fun h => (by cases h)⟩
  nothing := ⟨fun h => (by cases h), fun h => (by cases h)⟩
  only items' := by
    constructor
    · intro h
      cases h
      exact ⟨items, rfl, rfl⟩
    · rintro ⟨earlier, h, rfl⟩
      cases h
      rfl
  admits s := by
    constructor
    · rintro ⟨r, hr, hs⟩
      obtain ⟨r', hr', rfl⟩ := List.mem_map.1 hr
      rw [Reference.selection?_canonical] at hs
      exact ⟨r', hr', hs⟩
    · rintro ⟨r, hr, hs⟩
      refine ⟨r.canonical, List.mem_map_of_mem hr, ?_⟩
      rw [Reference.selection?_canonical, hs]

end Grant

/-- a written flag and list grant what they granted before -/
theorem Access.persists {k : Kind} (a : Access k) : a.grant.Persists a.canonical.grant := by
  obtain ⟨all, items⟩ := a
  cases all with
  | true => exact Grant.persists_all
  | false =>
    cases items with
    | nil => exact Grant.persists_nothing
    | cons r rs => exact Grant.persists_only (r :: rs)

namespace Spec

/-- the specification has lost or gained no one who is let in -/
structure KeepsGrants (s t : Spec) : Prop where
  present : t.authorizedKeys.isSome ↔ s.authorizedKeys.isSome
  users : ∀ k ∈ s.authorizedKeys, ∀ k' ∈ t.authorizedKeys, k.users.grant.Persists k'.users.grant
  sshKeys : ∀ k ∈ s.authorizedKeys, ∀ k' ∈ t.authorizedKeys,
    k.sshKeys.grant.Persists k'.sshKeys.grant

theorem keepsGrants_of_eq {s t : Spec}
    (h : t.authorizedKeys = s.authorizedKeys.map AuthorizedKeys.canonical) : s.KeepsGrants t where
  present := by rw [h, Option.isSome_map]
  users k hk k' hk' := by
    rw [h, hk] at hk'
    cases hk'
    exact k.users.persists
  sshKeys k hk k' hk' := by
    rw [h, hk] at hk'
    cases hk'
    exact k.sshKeys.persists

theorem keepsGrants_keptBy (fs : List Format) (s : Spec) : s.KeepsGrants (s.keptBy fs) := by
  refine keepsGrants_of_eq ?_
  unfold keptBy
  split <;> rfl

/-- no step of a translation changes who is let in -/
theorem relay_grants (fs : List Format) (s : Spec) :
    ∃ ts, relay fs s = .ok ts ∧ ts.length = fs.length ∧ ∀ t ∈ ts, s.KeepsGrants t := by
  refine ⟨_, relay_keptBy fs s, ?_, ?_⟩
  · rw [List.length_map, List.length_range]
  · intro t ht
    obtain ⟨i, -, rfl⟩ := List.mem_map.1 ht
    exact keepsGrants_keptBy (fs.take (i + 1)) s

end Spec

end MachineSpec
