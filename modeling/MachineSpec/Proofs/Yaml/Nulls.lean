import Mathlib.Data.List.Nodup
import MachineSpec.Proofs.Document.Fits
import MachineSpec.Yaml.Nulls
import MachineSpec.Yaml.Schema

/-!
# Null stands for nothing in YAML

A member that is null leaves no trace in the document that an outline stands for, so it may be added
and taken away.  A change that keeps what the members of a record stand for keeps what the outline
around it stands for.

* `membersStandFor_append`   members one after the other
* `AtRecord.standsFor`       from the members of a record to the whole outline
* `AddsNull.recordsAs`, `DropsNull.recordsAs`   a member that is null
-/

namespace MachineSpec.Yaml

section members
variable {fields : List (String × Shape)} {ms ms' : List (Outline × Outline)}
  {ds : List (String × Document)}

theorem membersStandFor_append : MembersStandFor fields (ms ++ ms') ds ↔
    ∃ ds₁ ds₂, ds = ds₁ ++ ds₂ ∧
      MembersStandFor fields ms ds₁ ∧ MembersStandFor fields ms' ds₂ := by
  induction ms generalizing ds with
  | nil =>
    constructor
    · exact fun h => ⟨[], ds, rfl, .nil fields, h⟩
    · rintro ⟨ds₁, ds₂, rfl, h₁, h₂⟩
      cases h₁
      exact h₂
  | cons m ms ih =>
    constructor
    · intro h
      cases h with
      | cons style known field rest =>
        obtain ⟨ds₁, ds₂, rfl, h₁, h₂⟩ := ih.1 rest
        exact ⟨_, ds₂, (List.append_assoc _ _ _).symm, .cons style known field h₁, h₂⟩
    · rintro ⟨ds₁, ds₂, rfl, h₁, h₂⟩
      cases h₁ with
      | cons style known field rest =>
        rw [List.append_assoc]
        exact .cons style known field (ih.2 ⟨_, ds₂, rfl, rest, h₂⟩)

/-- the members of a mapping that stands for a record -/
structure RecordsAs (fields : List (String × Shape)) (ms : List (Outline × Outline))
    (ds : List (String × Document)) : Prop where
  once : (keysOf ms).Nodup
  members : MembersStandFor fields ms ds

end members

/-! ## a change of one record -/

theorem FieldStandsFor.mono {shape : Shape} {o o' : Outline} {d? : Option Document}
    (ho : o.isVoid = false) (ho' : o'.isVoid = false)
    (h : ∀ d, StandsFor shape o d → StandsFor shape o' d) (hf : FieldStandsFor shape o d?) :
    FieldStandsFor shape o' d? := by
  cases hf with
  | null void => cases ho.symm.trans void
  | value _ value => exact .value ho' (h _ value)

theorem ItemsStandFor.replace {shape : Shape} {before after : List Outline} {o o' : Outline}
    (h : ∀ d, StandsFor shape o d → StandsFor shape o' d) {ds : List Document}
    (hs : ItemsStandFor shape (before ++ o :: after) ds) :
    ItemsStandFor shape (before ++ o' :: after) ds := by
  induction before generalizing ds with
  | nil =>
    cases hs with
    | cons value rest => exact .cons (h _ value) rest
  | cons w before ih =>
    cases hs with
    | cons value rest => exact .cons value (ih rest)

section change
variable {change : List (String × Shape) → List (Outline × Outline) →
  List (Outline × Outline) → Prop}

/-- what stands for a record, or has one below it, is not null -/
theorem AtRecord.isVoid_eq_false {shape : Shape} {o o' : Outline}
    (h : AtRecord change shape o o') : o.isVoid = false ∧ o'.isVoid = false := by
  cases h <;> exact ⟨rfl, rfl⟩

/-- a change that keeps what the members of a record stand for keeps what the whole stands for -/
theorem AtRecord.standsFor
    (step : ∀ fields ms ms' ds, change fields ms ms' → RecordsAs fields ms ds →
      RecordsAs fields ms' ds)
    {shape : Shape} {o o' : Outline} (h : AtRecord change shape o o') {d : Document}
    (hd : StandsFor shape o d) : StandsFor shape o' d := by
  induction h generalizing d with
  | here members =>
    cases hd with
    | record once hms =>
      obtain ⟨once', hms'⟩ := step _ _ _ _ members ⟨once, hms⟩
      exact .record once' hms'
  | @member title fields before after style key shape o o' known value ih =>
    cases hd with
    | record once hms =>
      obtain ⟨ds₁, ds₂, rfl, hbefore, hbehind⟩ := membersStandFor_append.1 hms
      cases hbehind with
      | cons _ known' field rest =>
        cases Option.some.inj (known.symm.trans known')
        obtain ⟨hvoid, hvoid'⟩ := value.isVoid_eq_false
        have hfield := field.mono hvoid hvoid' fun _ => ih
        refine .record ?_
          (membersStandFor_append.2 ⟨_, _, rfl, hbefore, .cons style known hfield rest⟩)
        unfold keysOf at once ⊢
        rw [List.map_append, List.map_cons] at once ⊢
        exact once
  | item value ih =>
    cases hd with
    | list items => exact .list (items.replace fun _ => ih)

end change

/-! ## null -/

section null
variable {fields : List (String × Shape)} {before after ms ms' : List (Outline × Outline)}
  {o : Outline} {ds : List (String × Document)}

theorem nodup_keysOf {q : Outline} : (keysOf (before ++ (q, o) :: after)).Nodup ↔
    q.text ∉ keysOf (before ++ after) ∧ (keysOf (before ++ after)).Nodup := by
  unfold keysOf
  rw [List.map_append, List.map_cons, List.nodup_middle, ← List.map_append, List.nodup_cons]

/-- a member that is null stands for nothing -/
theorem membersStandFor_null {style : Style} {key : String} (void : o.isVoid = true) :
    MembersStandFor fields (before ++ (.scalar style key, o) :: after) ds ↔
      key ∈ fields.map Prod.fst ∧ MembersStandFor fields (before ++ after) ds := by
  rw [membersStandFor_append, membersStandFor_append]
  constructor
  · rintro ⟨ds₁, ds₂, rfl, h₁, h₂⟩
    cases h₂ with
    | cons _ known field rest =>
      cases field with
      | null => exact ⟨List.mem_map.2 ⟨_, mem_of_lookup known, rfl⟩, ds₁, _, rfl, h₁, rest⟩
      | value filled _ => cases void.symm.trans filled
  · rintro ⟨hkey, ds₁, ds₂, rfl, h₁, h₂⟩
    obtain ⟨⟨_, shape⟩, hm, rfl⟩ := List.mem_map.1 hkey
    obtain ⟨shape, hshape⟩ := Option.isSome_iff_exists.1
      (List.lookup_isSome_iff.2 ⟨_, hm, beq_self_eq_true _⟩)
    exact ⟨ds₁, ds₂, rfl, h₁, .cons style hshape (.null void) h₂⟩

theorem AddsNull.recordsAs (h : AddsNull fields ms ms') (hd : RecordsAs fields ms ds) :
    RecordsAs fields ms' ds := by
  cases h with
  | between known new void =>
    exact ⟨nodup_keysOf.2 ⟨new, hd.once⟩, (membersStandFor_null void).2 ⟨known, hd.members⟩⟩

theorem DropsNull.recordsAs (h : DropsNull fields ms ms') (hd : RecordsAs fields ms ds) :
    RecordsAs fields ms' ds := by
  cases h with
  | @between before after q o void =>
    refine ⟨(nodup_keysOf.1 hd.once).2, ?_⟩
    obtain ⟨style, key, rfl⟩ : ∃ style key, q = .scalar style key := by
      obtain ⟨_, _, -, -, h₂⟩ := membersStandFor_append.1 hd.members
      cases h₂
      exact ⟨_, _, rfl⟩
    exact ((membersStandFor_null void).1 hd.members).2

end null

end MachineSpec.Yaml
