import MachineSpec.Proofs.RoundTrip

/-!
# Written forms are stable

What is read back is written as it was written before.  Being canonical drops nothing that is
written, and an empty tag has no element; only the element around the tags may go, when all of them
were empty.

* `Spec.value_toDocument_canonical`   the document of a canonical specification
* `Spec.value_toMarkup_canonical`     its markup
* `Spec.encode_canonical`             its bytes in each format
* `Spec.encode_dropEmptyTags_iff`     the bytes in markup without empty tags
* `Spec.encode_decode_encode_iff`     writing what was read back
-/

namespace MachineSpec

open Logged

theorem Access.grant_canonical {k : Kind} (a : Access k) :
    a.canonical.grant = match a.grant with
      | .all => .all
      | .only items => .only (items.map Reference.canonical)
      | .nothing => .nothing := by
  obtain ⟨all, items⟩ := a
  cases all with
  | true => rfl
  | false => cases items <;> rfl

/-! ## documents -/

namespace Members
variable {α : Type} {c : α → α} {f : α → Logged Document}

theorem value_optional_map (h : ∀ a, (f (c a)).value = (f a).value) (key : String)
    (part : Option α) : (optional key (part.map c) f).value = (optional key part f).value := by
  cases part with
  | none => rfl
  | some a =>
    show [(key, (f (c a)).value)] = [(key, (f a).value)]
    rw [h]

theorem value_each_map (h : ∀ a, (f (c a)).value = (f a).value) (key : String) (parts : List α) :
    (each key (parts.map c) f).value = (each key parts f).value := by
  have hf : (parts.map c).map (fun a => (f a).value) = parts.map fun a => (f a).value := by
    rw [List.map_map]
    exact List.map_congr_left fun a _ => h a
  unfold each
  rw [value_bind, value_bind, value_mapM, value_mapM, hf]

theorem value_granted_canonical {k : Kind} {f : Reference k → Logged Document}
    (h : ∀ r, (f r.canonical).value = (f r).value) (all only : String) (a : Access k) :
    (granted all only a.canonical f).value = (granted all only a f).value := by
  unfold granted
  rw [Access.grant_canonical]
  cases a.grant with
  | all => rfl
  | only items => exact value_each_map h only items
  | nothing => rfl

/-- an entity is written by its selection -/
theorem value_selected_congr [Lookup α] {a b : α}
    (h : Lookup.selection? a = Lookup.selection? b) : (selected a).value = (selected b).value := by
  rw [value_selected, value_selected, h]

end Members

section documents

open Members

theorem Reference.value_toDocument_canonical {k : Kind} (r : Reference k) :
    r.canonical.toDocument.value = r.toDocument.value := by
  have h : (selected r.canonical).value = (selected r).value :=
    value_selected_congr r.selection?_canonical
  unfold toDocument
  simp only [value_record, List.flatMap_cons, h]

theorem Resources.value_toDocument_canonical (r : Resources) :
    r.canonical.toDocument.value = r.toDocument.value := by
  unfold toDocument canonical
  simp only [value_record, List.flatMap_cons,
    value_optional_map Reference.value_toDocument_canonical]

theorem DiskTemplate.value_toDocument_canonical (t : DiskTemplate) :
    t.canonical.toDocument.value = t.toDocument.value := by
  have h : (selected t.canonical).value = (selected t).value :=
    value_selected_congr t.reference.selection?_canonical
  unfold toDocument
  simp only [value_record, List.flatMap_cons, h]
  rfl

theorem SystemDisk.value_toDocument_canonical (d : SystemDisk) :
    d.canonical.toDocument.value = d.toDocument.value := by
  unfold toDocument canonical
  simp only [value_record, List.flatMap_cons,
    value_optional_map Reference.value_toDocument_canonical]

theorem Allocation.value_toDocument_canonical (a : Allocation) :
    a.canonical.toDocument.value = a.toDocument.value := by
  unfold toDocument canonical
  simp only [value_record, List.flatMap_cons,
    value_optional_map Reference.value_toDocument_canonical]

theorem NetworkInterface.value_toDocument_canonical (i : NetworkInterface) :
    i.canonical.toDocument.value = i.toDocument.value := by
  unfold toDocument canonical
  simp only [value_record, List.flatMap_cons,
    value_optional_map Reference.value_toDocument_canonical,
    value_each_map Allocation.value_toDocument_canonical]

theorem AuthorizedKeys.value_toDocument_canonical (k : AuthorizedKeys) :
    k.canonical.toDocument.value = k.toDocument.value := by
  unfold toDocument canonical
  simp only [value_record, List.flatMap_cons,
    value_granted_canonical Reference.value_toDocument_canonical]

/-- nothing that a document says is dropped from a canonical specification -/
theorem Spec.value_toDocument_canonical (s : Spec) :
    s.canonical.toDocument.value = s.toDocument.value := by
  unfold toDocument canonical
  simp only [value_record, List.flatMap_cons,
    value_optional_map Reference.value_toDocument_canonical,
    value_optional_map Resources.value_toDocument_canonical,
    value_optional_map DiskTemplate.value_toDocument_canonical,
    value_optional_map AuthorizedKeys.value_toDocument_canonical,
    value_each_map SystemDisk.value_toDocument_canonical,
    value_each_map Reference.value_toDocument_canonical,
    value_each_map NetworkInterface.value_toDocument_canonical]

end documents

/-! ## markup -/

namespace Nodes
variable {α : Type} {c : α → α} {f : α → Logged Markup.Node}

theorem value_element (name : String) (as : List (String × String))
    (groups : List (Logged Nodes)) :
    (element name as groups).value = .group name as (groups.flatMap (·.value)) := by
  unfold element
  rw [value_bind, Markup.value_join]
  rfl

theorem value_optional_map (h : ∀ a, (f (c a)).value = (f a).value) (part : Option α) :
    (optional (part.map c) f).value = (optional part f).value := by
  cases part with
  | none => rfl
  | some a =>
    show [(f (c a)).value] = [(f a).value]
    rw [h]

theorem value_wrapped (name : String) (items : List α) (f : α → Logged Nodes) :
    (wrapped name items f).value =
      if items = [] then [] else [.group name [] (items.flatMap fun a => (f a).value)] := by
  unfold wrapped
  cases items with
  | nil => rfl
  | cons a as =>
    rw [if_neg (List.cons_ne_nil a as)]
    show [(element name [] ((a :: as).map f)).value] = _
    rw [value_element, List.flatMap_map]

theorem value_each_map (h : ∀ a, (f (c a)).value = (f a).value) (name : String)
    (items : List α) : (each name (items.map c) f).value = (each name items f).value := by
  unfold each
  rw [value_wrapped, value_wrapped, List.flatMap_map]
  simp only [List.map_eq_nil_iff, value_bind, h]

theorem value_mapM_map (h : ∀ a, (f (c a)).value = (f a).value) (items : List α) :
    ((items.map c).mapM f).value = (items.mapM f).value := by
  rw [value_mapM, value_mapM, List.map_map]
  exact List.map_congr_left fun a _ => h a

theorem value_selected_congr [Lookup α] {a b : α}
    (h : Lookup.selection? a = Lookup.selection? b) (name : String) :
    (selected name a).value = (selected name b).value := by
  rw [value_selected, value_selected, h]

theorem value_selected_canonical {k : Kind} (name : String) (r : Reference k) :
    (selected name r.canonical).value = (selected name r).value :=
  value_selected_congr (a := r.canonical) r.selection?_canonical name

theorem value_granted_canonical {k : Kind} (name item : String) (a : Access k) :
    (granted name item a.canonical).value = (granted name item a).value := by
  unfold granted
  rw [Access.grant_canonical]
  cases a.grant with
  | all => rfl
  | only items => exact value_each_map (value_selected_canonical item) name items
  | nothing => rfl

end Nodes

open Nodes

theorem Resources.value_toMarkup_canonical (r : Resources) :
    r.canonical.toMarkup.value = r.toMarkup.value := by
  unfold toMarkup canonical
  simp only [value_element, List.flatMap_cons,
    Nodes.value_optional_map (value_selected_canonical _)]

theorem DiskTemplate.value_referenceMarkup_canonical (t : DiskTemplate) :
    t.canonical.referenceMarkup.value = t.referenceMarkup.value := by
  have hs : Lookup.selection? t.canonical = Lookup.selection? t :=
    t.reference.selection?_canonical
  unfold referenceMarkup
  rw [value_bind, value_bind, Lookup.value_select, Lookup.value_select, hs]
  cases Lookup.selection? t with
  | none => rfl
  | some s => exact congrArg (fun n => [n]) (Nodes.value_selected_congr hs "DiskTemplate")

theorem DiskTemplate.value_toMarkup_canonical (t : DiskTemplate) :
    t.canonical.toMarkup.value = t.toMarkup.value := by
  unfold toMarkup
  simp only [value_element, List.flatMap_cons, value_referenceMarkup_canonical]
  rfl

theorem SystemDisk.value_toMarkup_canonical (d : SystemDisk) :
    d.canonical.toMarkup.value = d.toMarkup.value := by
  unfold toMarkup canonical
  simp only [value_element, List.flatMap_cons,
    Nodes.value_optional_map (value_selected_canonical _)]

theorem Allocation.value_toMarkup_canonical (a : Allocation) :
    a.canonical.toMarkup.value = a.toMarkup.value := by
  unfold toMarkup canonical
  simp only [value_element, List.flatMap_cons,
    Nodes.value_optional_map (value_selected_canonical _)]

theorem NetworkInterface.value_toMarkup_canonical (i : NetworkInterface) :
    i.canonical.toMarkup.value = i.toMarkup.value := by
  unfold toMarkup canonical
  simp only [value_element, List.flatMap_cons,
    Nodes.value_optional_map (value_selected_canonical _),
    value_mapM_map Allocation.value_toMarkup_canonical]

theorem AuthorizedKeys.value_toMarkup_canonical (k : AuthorizedKeys) :
    k.canonical.toMarkup.value = k.toMarkup.value := by
  unfold toMarkup canonical
  simp only [value_element, List.flatMap_cons, Nodes.value_granted_canonical]

namespace Spec

/-- nothing that has an element is dropped from a canonical specification -/
theorem value_toMarkup_canonical (s : Spec) : s.canonical.toMarkup.value = s.toMarkup.value := by
  unfold toMarkup canonical
  simp only [value_element, List.flatMap_cons,
    Nodes.value_optional_map (value_selected_canonical _),
    Nodes.value_optional_map Resources.value_toMarkup_canonical,
    Nodes.value_optional_map DiskTemplate.value_toMarkup_canonical,
    Nodes.value_optional_map AuthorizedKeys.value_toMarkup_canonical,
    Nodes.value_each_map SystemDisk.value_toMarkup_canonical,
    Nodes.value_each_map (value_selected_canonical _),
    Nodes.value_each_map NetworkInterface.value_toMarkup_canonical]

/-- a canonical specification is written as the one that it comes from -/
theorem encode_canonical (format : Format) (s : Spec) :
    (s.canonical.encode format).value = (s.encode format).value := by
  rw [value_encode, value_encode]
  cases format with
  | json => rw [value_print_json, value_print_json, value_toDocument_canonical]
  | yaml => rw [value_print_yaml, value_print_yaml, value_toDocument_canonical]
  | xml => rw [value_print_xml, value_print_xml, value_toMarkup_canonical]

/-! ## empty tags -/

/-- the element around the tags, if there are any -/
def tagNodes (tags : List String) : Nodes :=
  (wrapped "Tags" tags fun t => pure (text "Tag" t)).value

theorem tagNodes_eq (tags : List String) :
    tagNodes tags = if tags = [] then [] else [.group "Tags" [] (tags.flatMap (text "Tag"))] :=
  value_wrapped _ _ _

theorem flatMap_filter_tags (tags : List String) :
    (tags.filter (· ≠ "")).flatMap (text "Tag") = tags.flatMap (text "Tag") := by
  induction tags with
  | nil => rfl
  | cons t tags ih =>
    by_cases ht : t = ""
    · rw [List.filter_cons_of_neg (by simpa using ht), ih, ht]
      rfl
    · rw [List.filter_cons_of_pos (by simpa using ht), List.flatMap_cons, ih, List.flatMap_cons]

theorem value_toMarkup_tags (s : Spec) {tags tags' : List String}
    (h : tagNodes tags = tagNodes tags') :
    ({ s with tags } : Spec).toMarkup.value = ({ s with tags := tags' } : Spec).toMarkup.value := by
  unfold tagNodes at h
  unfold toMarkup
  simp only [value_element, List.flatMap_cons, h]

open Markup Node in
/-- the tags have an element of their own among those of the root -/
theorem childChars_tagNodes_of_eq (s : Spec) {tags tags' : List String}
    (h : ({ s with tags } : Spec).toMarkup.value.chars =
      ({ s with tags := tags' } : Spec).toMarkup.value.chars) :
    childChars (tagNodes tags) = childChars (tagNodes tags') := by
  unfold toMarkup at h
  simp only [value_element, chars_group, List.flatMap_cons, childChars_append,
    List.append_cancel_left_eq, List.append_cancel_right_eq] at h
  exact h

/-- the element around the tags stays if it is not there in the first place, or some tag stays -/
theorem tagNodes_filter {tags : List String} (h : ¬(tags ≠ [] ∧ ∀ tag ∈ tags, tag = "")) :
    tagNodes (tags.filter (· ≠ "")) = tagNodes tags := by
  by_cases hnil : tags = []
  · rw [hnil]
    rfl
  · have hsome : tags.filter (· ≠ "") ≠ [] := fun hf =>
      h ⟨hnil, fun tag ht => by simpa using List.filter_eq_nil_iff.1 hf tag ht⟩
    rw [tagNodes_eq, tagNodes_eq, if_neg hsome, if_neg hnil, flatMap_filter_tags]

open Markup Node in
/-- the element around tags that are all empty is not written again -/
theorem childChars_tagNodes_ne {tags : List String} (hne : tags ≠ [])
    (h : ∀ tag ∈ tags, tag = "") :
    childChars (tagNodes (tags.filter (· ≠ ""))) ≠ childChars (tagNodes tags) := by
  have hnone : tags.filter (· ≠ "") = [] :=
    List.filter_eq_nil_iff.2 fun tag ht => by simpa using h tag ht
  obtain ⟨cs, hcs⟩ := exists_chars (.group "Tags" [] (tags.flatMap (text "Tag")))
  rw [hnone, tagNodes_eq tags, if_neg hne, childChars_cons, hcs]
  exact (List.cons_ne_nil _ _).symm

/-- the bytes in markup are the same without the empty tags, unless there are no others -/
theorem encode_dropEmptyTags_iff (s : Spec) :
    (s.dropEmptyTags.encode .xml).value = (s.encode .xml).value ↔
      ¬(s.tags ≠ [] ∧ ∀ tag ∈ s.tags, tag = "") := by
  rw [value_encode, value_encode, value_print_xml, value_print_xml]
  constructor
  · rintro heq ⟨hne, hall⟩
    refine childChars_tagNodes_ne hne hall (childChars_tagNodes_of_eq s ?_)
    have hprint := String.toList_inj.2 (Utf8.encode_injective heq)
    rw [String.toList_append, String.toList_append, List.append_cancel_left_eq,
      Markup.Node.toList_print, Markup.Node.toList_print] at hprint
    exact hprint
  · intro h
    have hmarkup : s.dropEmptyTags.toMarkup.value = s.toMarkup.value :=
      s.value_toMarkup_tags (tagNodes_filter h)
    rw [hmarkup]

/-- what is read back is written as before, but for markup with none but empty tags -/
theorem encode_decode_encode_iff (format : Format) (s : Spec) :
    ∃ t, outcome (decode format (s.encode format).value) = .ok t ∧
      ((t.encode format).value = (s.encode format).value ↔
        ¬(format = .xml ∧ s.tags ≠ [] ∧ ∀ tag ∈ s.tags, tag = "")) := by
  refine ⟨s.kept format, recode_eq format s, ?_⟩
  by_cases hf : format = .xml
  · subst hf
    show (s.canonical.dropEmptyTags.encode .xml).value = _ ↔ _
    rw [← encode_canonical .xml s, encode_dropEmptyTags_iff]
    exact not_congr ⟨fun h => ⟨rfl, h⟩, fun h => h.2⟩
  · rw [kept_of_ne hf, encode_canonical]
    exact iff_of_true rfl fun h => hf h.1

end Spec

end MachineSpec
