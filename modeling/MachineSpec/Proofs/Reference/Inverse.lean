import MachineSpec.Proofs.Reference.Store

/-!
# Selecting and resolving

A selection is a marker and a text, and an entity is made from just these.  The entity that is made
holds this text and no other, so that its selection is the one it was made from; and every marker
that is in the table, with a text that is not empty, is the selection of the entity made from it.

* `outcome_resolve`       the entity that a marker and a text make
* `select_single`         the selection of an entity with a single text
* `InverseLaws`, `inverseLaws`   both ways round, for references of each kind and for templates
-/

namespace MachineSpec.Lookup

open Logged (outcome)
open Reference (index? index?_eq_none_iff exists_index?)
open LawfulLookup (reference_withReference withReference_reference reference_empty)

section lawful
variable {α : Type} [Lookup α] [LawfulLookup α]

/-- an entity that is empty but for one text -/
def single (α : Type) [Lookup α] (i : Fin (kind α).selectors.length) (value : String) : α :=
  withReference empty (Reference.empty.put i value)

section single
variable {i : Fin (kind α).selectors.length} {value : String}

/-- a marker makes an entity with a single text if it is in the table -/
theorem outcome_resolve (marker? : Option String) (value : String) :
    outcome (resolve marker? value : ExceptT UnsupportedSelector Logged α) =
      match index? (kind α) (marker?.getD (kind α).primary) with
      | none => .error ⟨kind α, marker?.getD (kind α).primary⟩
      | some i => .ok (single α i value) := by
  have h := outcome_assign (empty : α) marker? value
  rw [reference_empty] at h
  exact h

theorem single_empty (i : Fin (kind α).selectors.length) : single α i "" = empty := by
  unfold single
  rw [Reference.put_empty, ← reference_empty (α := α), withReference_reference]

theorem get?_single {name : String} (hi : index? (kind α) name = some i) :
    get? (single α i value) name = some value := by
  unfold single
  rw [get?_withReference, Reference.get?_put _ hi, if_pos rfl]

theorem get?_single_of_ne {name other : String} (hi : index? (kind α) name = some i)
    (hother : other ∈ (kind α).selectors) (hne : other ≠ name) :
    get? (single α i value) other = some "" := by
  unfold single
  rw [get?_withReference, Reference.get?_put _ hi, if_neg hne, Reference.get?_empty hother]

/-- beside the reference it is empty -/
theorem withReference_single :
    single α i value = withReference empty (reference (single α i value)) := by
  unfold single
  rw [reference_withReference]

theorem select_single {name : String} (hi : index? (kind α) name = some i) (hv : value ≠ "") :
    (select (single α i value)).value = some ⟨name, value, name = (kind α).primary⟩ := by
  rw [value_select]
  unfold selection? single
  rw [reference_withReference, Reference.selection?_put i hv, Reference.get_of_index? hi]

end single

end lawful

/-- the laws by which selecting and resolving undo each other in entities of one type -/
structure InverseLaws (α : Type) [Lookup α] : Prop where
  /-- the entity that is made from a selection holds its text and nothing else, and is selected by
  it again -/
  resolve_select (a : α) (s : Selection) : (select a).value = some s →
    ∃ a' : α, outcome (resolve s.marker? s.value) = .ok a' ∧
      get? a' s.selector = some s.value ∧
      (∀ name ∈ (kind α).selectors, name ≠ s.selector → get? a' name = some "") ∧
      a' = withReference empty (reference a') ∧
      (select a').value = some s
  /-- an entity without a selection has no texts, and neither has the one made from no text -/
  resolve_unselected (a : α) : (select a).value = none →
    outcome (resolve none "") = .ok (empty : α) ∧
      ∀ name ∈ (kind α).selectors, get? a name = some "" ∧ get? (empty : α) name = some ""
  /-- an entity that is made from a marker in the table, or from none, and a text is selected by
  this text and by the selector that the marker names, or else by the first -/
  select_resolve (marker? : Option String) (value : String) : value ≠ "" →
    (∀ marker, marker? = some marker → marker ∈ (kind α).selectors) →
      ∃ (a : α) (s : Selection), outcome (resolve marker? value) = .ok a ∧
        (select a).value = some s ∧ s.value = value ∧
        some s.selector = marker?.or (kind α).selectors.head? ∧
        (s.marker? = none ↔ (kind α).selectors.head? = some s.selector)
  /-- no entity is made from any other marker, whatever the text -/
  unsupported (marker value : String) : marker ∉ (kind α).selectors →
    outcome (resolve (some marker) value : ExceptT UnsupportedSelector Logged α) =
      .error ⟨kind α, marker⟩
  /-- nor from the empty one -/
  unnamed : "" ∉ (kind α).selectors

section lawful
variable {α : Type} [Lookup α] [LawfulLookup α]

theorem resolve_of_select {a : α} {s : Selection} (h : (select a).value = some s) :
    ∃ i, index? (kind α) s.selector = some i ∧
      outcome (resolve s.marker? s.value) = .ok (single α i s.value) ∧
      (select (single α i s.value)).value = some s := by
  rw [value_select] at h
  obtain ⟨hv, hp, i, hi⟩ := Reference.exists_selection h
  refine ⟨i, hi, ?_, ?_⟩
  · rw [outcome_resolve, Reference.getD_marker? h, hi]
  · rw [select_single hi hv, ← hp]

theorem select_of_resolve {marker? : Option String} {value : String} (hv : value ≠ "")
    (hm : ∀ marker, marker? = some marker → marker ∈ (kind α).selectors) :
    ∃ (a : α) (s : Selection), outcome (resolve marker? value) = .ok a ∧
      (select a).value = some s ∧ s.value = value ∧
      some s.selector = marker?.or (kind α).selectors.head? ∧
      (s.marker? = none ↔ (kind α).selectors.head? = some s.selector) := by
  have hmem : marker?.getD (kind α).primary ∈ (kind α).selectors := by
    cases marker? with
    | none => exact List.mem_of_head? (kind α).head?_selectors
    | some marker => exact hm marker rfl
  obtain ⟨i, hi⟩ := exists_index? hmem
  have hselect := select_single (α := α) hi hv
  refine ⟨single α i value, _, ?_, hselect, rfl, ?_, ?_⟩
  · rw [outcome_resolve, hi]
  · rw [(kind α).head?_selectors]
    cases marker? <;> rfl
  · exact Reference.marker?_eq_none_iff ((value_select _).symm.trans hselect)

end lawful

theorem inverseLaws_of_lawful (α : Type) [Lookup α] [LawfulLookup α] : InverseLaws α where
  resolve_select a s h := by
    obtain ⟨i, hi, hresolve, hselect⟩ := resolve_of_select h
    exact ⟨single α i s.value, hresolve, get?_single hi, fun _ => get?_single_of_ne hi,
      withReference_single, hselect⟩
  resolve_unselected a h := by
    refine ⟨?_, fun name hname => ⟨select_eq_none_iff.1 h name hname, get?_empty hname⟩⟩
    obtain ⟨i, hi⟩ := exists_index? (List.mem_of_head? (kind α).head?_selectors)
    rw [outcome_resolve, Option.getD_none, hi]
    exact congrArg Except.ok (single_empty i)
  select_resolve _ _ := select_of_resolve
  unsupported marker value h := by
    rw [outcome_resolve, Option.getD_some, index?_eq_none_iff.2 h]
  unnamed := (kind α).empty_not_mem_selectors

theorem beside_of_resolve {marker? : Option String} {value : String} {t : DiskTemplate}
    (h : outcome (resolve marker? value) = .ok t) : t.version = 0 ∧ t.options = [] := by
  rw [outcome_resolve] at h
  split at h
  · cases h
  · cases h
    exact ⟨rfl, rfl⟩

/-- selecting and resolving undo each other in references of each kind and in templates, and a
template that is made has nothing beside its reference -/
theorem inverseLaws :
    (∀ k, InverseLaws (Reference k)) ∧ InverseLaws DiskTemplate ∧
      ∀ (marker? : Option String) (value : String) (t : DiskTemplate),
        outcome (resolve marker? value) = .ok t → t.version = 0 ∧ t.options = [] :=
  ⟨fun k => inverseLaws_of_lawful (Reference k), inverseLaws_of_lawful DiskTemplate,
    fun _ _ _ => beside_of_resolve⟩

end MachineSpec.Lookup
