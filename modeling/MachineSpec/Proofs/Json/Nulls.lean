import Mathlib.Data.List.Nodup
import MachineSpec.Json.Nulls
import MachineSpec.Json.Schema
import MachineSpec.Proofs.Document.Fits

/-!
# Null stands for nothing in JSON

A member that is null leaves no trace in the document that a value stands for, so it may be added
and taken away.  A change that keeps what the members of a record stand for keeps what the value
around it stands for.

* `membersStandFor_append`   members side by side
* `AtRecord.standsFor`       from the members of a record to the whole value
* `AddsNull.recordsAs`, `DropsNull.recordsAs`   a member that is null
-/

namespace MachineSpec.Json

section members
variable {fields : List (String × Shape)} {ms ms' : List (String × Value)}
  {ds : List (String × Document)}

theorem membersStandFor_append : MembersStandFor fields (ms ++ ms') ds ↔
    ∃ ds₁ ds₂, ds = ds₁ ++ ds₂ ∧
      MembersStandFor fields ms ds₁ ∧ MembersStandFor fields ms' ds₂ := by
  induction ms generalizing ds with
  | nil =>
    constructor
    · exact fun h => ⟨[], ds, rfl, .nil fields, h⟩
    · rintro ⟨ds₁, ds₂, rfl, h₁, h₂⟩
      cases h₁
      exact h₂
  | cons m ms ih =>
    constructor
    · intro h
      cases h with
      | cons known field rest =>
        obtain ⟨ds₁, ds₂, rfl, h₁, h₂⟩ := ih.1 rest
        exact ⟨_, ds₂, (List.append_assoc _ _ _).symm, .cons known field h₁, h₂⟩
    · rintro ⟨ds₁, ds₂, rfl, h₁, h₂⟩
      cases h₁ with
      | cons known field rest =>
        rw [List.append_assoc]
        exact .cons known field (ih.2 ⟨_, ds₂, rfl, rest, h₂⟩)

/-- the members of an object that stands for a record -/
structure RecordsAs (fields : List (String × Shape)) (ms : List (String × Value))
    (ds : List (String × Document)) : Prop where
  once : (ms.map Prod.fst).Nodup
  members : MembersStandFor fields ms ds

end members

/-! ## a change of one record -/

theorem FieldStandsFor.mono {shape : Shape} {v v' : Value} {d? : Option Document} (hv : v ≠ .null)
    (h : ∀ d, StandsFor shape v d → StandsFor shape v' d) (hf : FieldStandsFor shape v d?) :
    FieldStandsFor shape v' d? := by
  cases hf with
  | null => exact absurd rfl hv
  | value value => exact .value (h _ value)

theorem ItemsStandFor.replace {shape : Shape} {before after : List Value} {v v' : Value}
    (h : ∀ d, StandsFor shape v d → StandsFor shape v' d) {ds : List Document}
    (hs : ItemsStandFor shape (before ++ v :: after) ds) :
    ItemsStandFor shape (before ++ v' :: after) ds := by
  induction before generalizing ds with
  | nil =>
    cases hs with
    | cons value rest => exact .cons (h _ value) rest
  | cons w before ih =>
    cases hs with
    | cons value rest => exact .cons value (ih rest)

theorem FieldsStandFor.replace {front back : List (String × Shape)} {key : String} {shape : Shape}
    {before after : List Value} {v v' : Value} (hplace : before.length = front.length)
    (hv : v ≠ .null) (h : ∀ d, StandsFor shape v d → StandsFor shape v' d)
    {ds : List (String × Document)}
    (hs : FieldsStandFor (front ++ (key, shape) :: back) (before ++ v :: after) ds) :
    FieldsStandFor (front ++ (key, shape) :: back) (before ++ v' :: after) ds := by
  induction before generalizing front ds with
  | nil =>
    obtain rfl := List.length_eq_zero_iff.1 hplace.symm
    cases hs with
    | cons field rest => exact .cons (field.mono hv h) rest
  | cons w before ih =>
    obtain ⟨f, front, rfl⟩ := List.exists_cons_of_length_eq_add_one hplace.symm
    cases hs with
    | cons field rest => exact .cons field (ih (Nat.succ.inj hplace) rest)

section change
variable {change : List (String × Shape) → List (String × Value) → List (String × Value) → Prop}

theorem AtRecord.ne_null {shape : Shape} {v v' : Value} (h : AtRecord change shape v v') :
    v ≠ .null := by
  cases h <;> nofun

/-- a change that keeps what the members of a record stand for keeps what the whole stands for -/
theorem AtRecord.standsFor
    (step : ∀ fields ms ms' ds, change fields ms ms' → RecordsAs fields ms ds →
      RecordsAs fields ms' ds)
    {shape : Shape} {v v' : Value} (h : AtRecord change shape v v') {d : Document}
    (hd : StandsFor shape v d) : StandsFor shape v' d := by
  induction h generalizing d with
  | here members =>
    cases hd with
    | object once hms =>
      obtain ⟨once', hms'⟩ := step _ _ _ _ members ⟨once, hms⟩
      exact .object once' hms'
  | @member title fields before after key shape v v' known value ih =>
    cases hd with
    | object once hms =>
      obtain ⟨ds₁, ds₂, rfl, hbefore, hbehind⟩ := membersStandFor_append.1 hms
      cases hbehind with
      | cons known' field rest =>
        cases Option.some.inj (known.symm.trans known')
        have hfield := field.mono value.ne_null fun d => ih
        refine .object ?_ (membersStandFor_append.2 ⟨_, _, rfl, hbefore, .cons known hfield rest⟩)
        rw [List.map_append, List.map_cons] at once ⊢
        exact once
  | field place value ih =>
    cases hd with
    | inOrder values => exact .inOrder (values.replace place value.ne_null fun _ => ih)
  | item value ih =>
    cases hd with
    | list items => exact .list (items.replace fun _ => ih)

end change

/-! ## null -/

section null
variable {fields : List (String × Shape)} {before after : List (String × Value)} {key : String}
  {ms ms' : List (String × Value)} {ds : List (String × Document)}

/-- a member that is null stands for nothing -/
theorem membersStandFor_null : MembersStandFor fields (before ++ (key, .null) :: after) ds ↔
    key ∈ fields.map Prod.fst ∧ MembersStandFor fields (before ++ after) ds := by
  rw [membersStandFor_append, membersStandFor_append]
  constructor
  · rintro ⟨ds₁, ds₂, rfl, h₁, h₂⟩
    cases h₂ with
    | cons known field rest =>
      cases field with
      | null => exact ⟨List.mem_map.2 ⟨_, mem_of_lookup known, rfl⟩, ds₁, _, rfl, h₁, rest⟩
      | value value => cases value
  · rintro ⟨hkey, ds₁, ds₂, rfl, h₁, h₂⟩
    obtain ⟨⟨_, shape⟩, hm, rfl⟩ := List.mem_map.1 hkey
    obtain ⟨shape, hshape⟩ := Option.isSome_iff_exists.1
      (List.lookup_isSome_iff.2 ⟨_, hm, beq_self_eq_true _⟩)
    exact ⟨ds₁, ds₂, rfl, h₁, .cons hshape (.null shape) h₂⟩

theorem AddsNull.recordsAs (h : AddsNull fields ms ms') (hd : RecordsAs fields ms ds) :
    RecordsAs fields ms' ds := by
  cases h with
  | between known new =>
    refine ⟨?_, membersStandFor_null.2 ⟨known, hd.members⟩⟩
    rw [List.map_append, List.map_cons, List.nodup_middle, ← List.map_append]
    exact List.nodup_cons.2 ⟨new, hd.once⟩

theorem DropsNull.recordsAs (h : DropsNull fields ms ms') (hd : RecordsAs fields ms ds) :
    RecordsAs fields ms' ds := by
  cases h with
  | between =>
    have once := hd.once
    rw [List.map_append, List.map_cons, List.nodup_middle, ← List.map_append] at once
    exact ⟨once.of_cons, (membersStandFor_null.1 hd.members).2⟩

end null

end MachineSpec.Json
