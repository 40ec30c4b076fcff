import MachineSpec.Markup.Inspection
import MachineSpec.Proofs.Markup.Acceptance

/-!
# The first element that is wrong decides the error

Reading an element fails if and only if something is wrong with it or with an element in it, and
the error is that of the first of them in the order of the start tags.  Each reading is guided by a
role of its own; an element that holds others is looked at itself, and then child by child.

* `Element.findSome?_visits`   the first error of an element, from its own and its children's
* `Role.Guides`                the role that decides the errors of a reading
* `Role.guides_leaf`, `guides_fields`   elements that hold no others, and those that do
* `Spec.ofElement_error_iff`   the error of a document
-/

namespace MachineSpec

open Logged (outcome)

namespace Markup

/-! ## visits -/

namespace Element

/-- an element that is not listed is wrong by itself -/
theorem findSome?_visits_none (parent : String) (e : Element) :
    (e.visits parent none).findSome? Visit.error? = some (.unknownElement parent e.name) := by
  cases e with
  | mk name as text es => rfl

theorem findSome?_childVisits (parent : String) (parts : List (String × Role)) (es : List Element) :
    (childVisits parent parts es).findSome? Visit.error? = es.findSome? fun child =>
      (child.visits parent (parts.lookup child.name)).findSome? Visit.error? := by
  induction es with
  | nil => rfl
  | cons e es ih =>
    rw [childVisits, List.findSome?_append, ih, findSome?_cons_or]

/-- the error of the element itself, or else the first one in it -/
theorem findSome?_visits (parent : String) (demands : List Demand) (parts : List (String × Role))
    (e : Element) :
    (e.visits parent (some (.mk demands parts))).findSome? Visit.error? =
      (demands.findSome? (Demand.error? e)).or (e.children.findSome? fun child =>
        (child.visits e.name (parts.lookup child.name)).findSome? Visit.error?) := by
  cases e with
  | mk name as text es =>
    have hself : Visit.error? ⟨parent, some (.mk demands parts), .mk name as text es⟩ =
        demands.findSome? (Demand.error? (.mk name as text es)) := rfl
    have hparts : (some (Role.mk demands parts)).elim [] Role.parts = parts := rfl
    rw [visits, findSome?_cons_or, hself, hparts, findSome?_childVisits]
    rfl

end Element

open Element

/-! ## demands -/

section demands
variable {e : Element}

theorem fault?_allow {keys : List String} :
    fault? (e.allow keys) = Demand.error? e (.attributes keys) := by
  have hkeys : (fun a : String × String => !keys.contains a.1) = fun a => decide (a.1 ∉ keys) := by
    funext a
    simp
  show fault? (e.allow keys) = (e.attributes.find? fun a => a.1 ∉ keys).map _
  unfold allow
  rw [hkeys]
  cases e.attributes.find? fun a => a.1 ∉ keys <;> rfl

theorem fault?_noChildren : fault? e.noChildren = Demand.error? e .childless := by
  show _ = e.children.head?.map _
  unfold noChildren
  cases e.children <;> rfl

theorem fault?_noText : fault? e.noText = Demand.error? e .blank := by
  show _ = Demand.blankError? e
  unfold noText Demand.blankError?
  split <;> rfl

theorem fault?_asText :
    fault? e.asText = (Demand.error? e (.attributes [])).or (Demand.error? e .childless) := by
  unfold asText
  rw [fault?_bind fun _ _ => fault?_bind_pure, fault?_allow, fault?_noChildren]

theorem fault?_keyword {α : Type} [Keyword α] {value : String} :
    fault? (e.keyword value : Reading α) = Demand.keywordError? e (Keyword.words α) value := by
  unfold Demand.keywordError? Demand.valueError?
  split
  · next hm =>
    obtain ⟨a, ha⟩ := Grammar.accepted_keyword.2 hm
    exact fault?_of_ok ha
  · next hm =>
    have hr : ¬Accepted (e.keyword value : Reading α) := fun h => hm (Grammar.accepted_keyword.1 h)
    unfold Element.keyword at hr ⊢
    split
    · next a ha =>
      rw [ha] at hr
      exact absurd (accepted_pure a) hr
    · rfl

theorem fault?_named {k : Kind} {marker? : Option String} :
    fault? (k.named marker?) =
      (marker?.filter (· ∉ k.selectors)).map (UnsupportedSelector.mk k) := by
  by_cases hm : ∀ marker ∈ marker?, marker ∈ k.selectors
  · obtain ⟨i, hi⟩ := Grammar.accepted_named.2 hm
    have hnone : marker?.filter (· ∉ k.selectors) = none := by simpa using hm
    rw [fault?_of_ok hi, hnone]
    rfl
  · obtain ⟨marker, rfl, hmarker⟩ : ∃ marker, marker? = some marker ∧ marker ∉ k.selectors := by
      simpa using hm
    have hindex : Reference.index? k ((some marker).getD k.primary) = none :=
      List.finIdxOf?_eq_none_iff.2 hmarker
    unfold Kind.named
    simp only [hindex, Option.filter, decide_eq_true hmarker]
    rfl

theorem fault?_selector {k : Kind} : fault? (e.selector k) =
    (Demand.error? e (.attributes ["by"])).or
      ((Demand.error? e .childless).or (Demand.error? e (.marker k))) := by
  unfold selector
  rw [fault?_bind fun _ _ => fault?_bind fun _ _ => fault?_adapt, fault?_allow, fault?_noChildren,
    fault?_named, Option.map_map]
  rfl

/-- the number of a text is looked for in what is left of it without blanks -/
theorem fault?_asNumber : fault? e.asNumber = (fault? e.asText).or (Demand.error? e .number) := by
  unfold asNumber
  refine fault?_bind fun s hs => ?_
  obtain rfl := Grammar.eq_text_of_asText hs
  dsimp only [Demand.error?]
  split
  · next hblank => rw [if_pos (.inl hblank)]; rfl
  · next hblank =>
    have hnumeral : IsNumeral (Text.trim e.text) ↔
        ∃ n, number? (Text.trim e.text).toList = some n := by
      unfold IsNumeral
      rw [Grammar.exists_number?_iff, or_iff_right hblank]
    split
    · next n hn => rw [if_pos (hnumeral.2 ⟨n, hn⟩)]; rfl
    · next hn =>
      rw [if_neg fun h => ?_]
      · rfl
      · obtain ⟨n, h⟩ := hnumeral.1 h
        rw [hn] at h
        cases h

theorem fault?_asKeyword {α : Type} [Keyword α] :
    fault? (e.asKeyword : Reading α) =
      (fault? e.asText).or (Demand.error? e (.keyword (Keyword.words α))) := by
  unfold asKeyword
  refine fault?_bind fun s hs => ?_
  obtain rfl := Grammar.eq_text_of_asText hs
  exact fault?_keyword

end demands

/-! ## roles -/

/-- the role that decides the errors of a reading -/
def Role.Guides {α : Type} (role : Role) (read : Element → Reading α) : Prop :=
  ∀ (parent : String) (e : Element),
    fault? (read e) = (e.visits parent (some role)).findSome? Visit.error?

namespace Role
variable {α β : Type} {role : Role} {read : Element → Reading β}

/-- an element that holds no others: if there is one in it, that is wrong before anything is looked
at in the one in it -/
theorem guides_leaf {keys : List String} {value : List Demand}
    (h : ∀ e, fault? (read e) = (Demand.error? e (.attributes keys)).or
      ((Demand.error? e .childless).or (value.findSome? (Demand.error? e)))) :
    (leaf keys value).Guides read := by
  intro parent e
  rw [leaf, findSome?_visits, h, ← findSome?_cons_or, ← findSome?_cons_or]
  cases hd : (Demand.attributes keys :: .childless :: value).findSome? (Demand.error? e) with
  | some err => rfl
  | none =>
    have hchild : e.children.head?.map _ = none :=
      List.findSome?_eq_none_iff.1 hd .childless (by simp)
    rw [List.head?_eq_none_iff.1 (Option.map_eq_none_iff.1 hchild)]
    rfl

theorem guides_text : text.Guides asText := guides_leaf fun e => by
  rw [fault?_asText, List.findSome?_nil, Option.or_none]

theorem guides_number : number.Guides asNumber := guides_leaf fun e => by
  rw [fault?_asNumber, fault?_asText, Option.or_assoc, findSome?_cons_or, List.findSome?_nil,
    Option.or_none]

theorem guides_keyword (α : Type) [Keyword α] :
    (keyword α).Guides (asKeyword : Element → Reading α) := guides_leaf fun e => by
  rw [fault?_asKeyword, fault?_asText, Option.or_assoc, findSome?_cons_or, List.findSome?_nil,
    Option.or_none]

/-- whatever is done with the selector of a reference -/
theorem guides_selector (k : Kind) (f : Element → Fin k.selectors.length → β) :
    (reference k).Guides fun e => do return f e (← e.selector k) := guides_leaf fun e => by
  rw [fault?_bind_pure, fault?_selector, findSome?_cons_or, List.findSome?_nil, Option.or_none]

theorem guides_reference (k : Kind) :
    (reference k).Guides (asReference : Element → Reading (Reference k)) :=
  guides_selector k fun e i => Reference.empty.put i e.text

/-! ## holders -/

/-- rules for children, each with the role for its name -/
inductive Guided : List (Rule α) → List (String × Role) → Prop
  | nil : Guided [] []
  | cons {r : Rule α} {role : Role} {rules : List (Rule α)} {parts : List (String × Role)}
      (rule : role.Guides r.read) (rest : Guided rules parts) :
      Guided (r :: rules) ((r.name, role) :: parts)

section rules
variable {rules : List (Rule α)} {parts : List (String × Role)}

namespace Guided

theorem set (name : String) (put : β → α → α) (h : role.Guides read) (rest : Guided rules parts) :
    Guided (.set name read put :: rules) ((name, role) :: parts) :=
  .cons (fun parent e => fault?_map.trans (h parent e)) rest

theorem setSome (name : String) (put : Option β → α → α) (h : role.Guides read)
    (rest : Guided rules parts) :
    Guided (.setSome name read put :: rules) ((name, role) :: parts) :=
  .cons (fun parent e => fault?_map.trans (h parent e)) rest

theorem fault?_change (h : Guided rules parts) (e child : Element) :
    fault? (e.change rules child) =
      (child.visits e.name (parts.lookup child.name)).findSome? Visit.error? := by
  unfold change
  induction h with
  | nil => exact (findSome?_visits_none e.name child).symm
  | @cons r role rules parts rule rest ih =>
    rw [List.find?_cons, List.lookup_cons]
    by_cases hn : child.name = r.name
    · rw [beq_iff_eq.2 hn, beq_iff_eq.2 hn.symm]
      exact rule e.name child
    · rw [beq_false_of_ne hn, beq_false_of_ne (Ne.symm hn)]
      exact ih

theorem fault?_changes (h : Guided rules parts) (e : Element) (start : α) :
    fault? (e.changes rules start) = e.children.findSome? fun child =>
      (child.visits e.name (parts.lookup child.name)).findSome? Visit.error? := by
  unfold changes
  rw [fault?_bind_pure, fault?_mapM]
  simp only [h.fault?_change]

end Guided

/-- elements that hold others and have no attributes -/
theorem guides_fields (h : Guided rules parts) (start : α) :
    (fields parts).Guides fun e => e.fields rules start := by
  intro parent e
  unfold Element.fields
  rw [fault?_bind fun _ _ => fault?_bind fun _ _ => h.fault?_changes e start, fault?_allow,
    fault?_noText, fields, findSome?_visits]
  simp only [findSome?_cons_or, List.findSome?_nil, Option.or_none, Option.or_assoc]

theorem fault?_items (item : String) {read : Element → Reading α} (h : role.Guides read)
    (e : Element) :
    fault? (e.items item read) = (fault? e.noText).or (e.children.findSome? fun child =>
      (child.visits e.name ([(item, role)].lookup child.name)).findSome? Visit.error?) := by
  have hr : Guided [.item item read] [(item, role)] :=
    .cons (fun parent e => fault?_map.trans (h parent e)) .nil
  exact fault?_bind fun _ _ => hr.fault?_changes e []

theorem guides_listOf (item : String) {read : Element → Reading α} (h : role.Guides read) :
    (listOf item role).Guides (Element.listOf item read) := by
  intro parent e
  unfold Element.listOf
  rw [fault?_bind fun _ _ => fault?_items item h e, fault?_allow, fault?_noText, listOf, fields,
    findSome?_visits]
  simp only [findSome?_cons_or, List.findSome?_nil, Option.or_none, Option.or_assoc]

end rules

end Role

end Markup

open Markup Markup.Role

/-! ## the parts of a specification -/

theorem Resources.guides : Resources.role.Guides Resources.ofElement := by
  unfold role ofElement
  exact guides_fields (.setSome _ _ (guides_reference _) <| .set _ _ guides_number <|
    .set _ _ guides_number .nil) _

theorem TemplateOption.guides : TemplateOption.role.Guides TemplateOption.ofElement :=
  guides_leaf fun e => by
    unfold ofElement
    rw [fault?_bind fun _ _ => fault?_bind_pure, fault?_allow, fault?_noChildren,
      List.findSome?_nil, Option.or_none]

theorem DiskTemplate.guides_selectorRule :
    (Role.reference .diskTemplate).Guides DiskTemplate.selectorRule.read := by
  unfold selectorRule
  exact guides_selector .diskTemplate fun e i (t : DiskTemplate) =>
    { t with reference := t.reference.put i e.text }

theorem DiskTemplate.guides : DiskTemplate.role.Guides DiskTemplate.ofElement := by
  unfold role ofElement
  exact guides_fields (.cons guides_selectorRule <| .set _ _ guides_number <|
    .set _ _ TemplateOption.guides .nil) _

theorem Schedule.guides : Schedule.role.Guides Schedule.ofElement := by
  unfold role ofElement
  exact guides_fields (.setSome _ _ (guides_keyword _) <| .set _ _ guides_number <|
    .set _ _ guides_number .nil) _

theorem BackupPolicy.guides : BackupPolicy.role.Guides BackupPolicy.ofElement := by
  unfold role ofElement
  exact guides_fields (.set _ _ guides_number <| .setSome _ _ Schedule.guides .nil) _

theorem BackupPolicy.guides_listOf :
    (Role.listOf "BackupPolicy" BackupPolicy.role).Guides BackupPolicy.listOf :=
  Role.guides_listOf _ BackupPolicy.guides

theorem SystemDisk.guides : SystemDisk.role.Guides SystemDisk.ofElement := by
  unfold role ofElement
  exact guides_fields (.set _ _ guides_text <| .set _ _ guides_number <| .set _ _ guides_text <|
    .setSome _ _ (guides_reference _) <| .set _ _ guides_text <|
    .set _ _ BackupPolicy.guides_listOf .nil) _

theorem Allocation.fault?_type (e : Element) :
    fault? ((e.attribute? "type").mapM e.keyword : Reading (Option AllocationType)) =
      Demand.error? e (.attributeKeyword "type" (Keyword.words AllocationType)) := by
  rw [Demand.error?]
  cases e.attribute? "type" with
  | none => rfl
  | some value =>
    rw [Option.bind_some, ← fault?_keyword]
    exact fault?_map

theorem Allocation.guides : Allocation.role.Guides Allocation.ofElement := by
  intro parent e
  have hr : Guided rules [
      ("IPAddress", Role.reference .ipAddress),
      ("Subnet", Role.reference .subnet),
      ("Version", Role.keyword IpVersion)] :=
    .setSome _ _ (guides_reference _) <| .setSome _ _ (guides_reference _) <|
      .setSome _ _ (guides_keyword _) .nil
  unfold ofElement
  rw [fault?_bind fun _ _ => fault?_bind fun _ _ => fault?_bind fun _ _ => hr.fault?_changes e _,
    fault?_allow, fault?_noText, fault?_type, role, Element.findSome?_visits]
  simp only [findSome?_cons_or, List.findSome?_nil, Option.or_none, Option.or_assoc]

theorem NetworkInterface.guides : NetworkInterface.role.Guides NetworkInterface.ofElement := by
  unfold role ofElement
  exact guides_fields (.setSome _ _ (guides_reference _) <| .setSome _ _ (guides_reference _) <|
    .setSome _ _ (guides_reference _) <| .set _ _ Allocation.guides .nil) _

/-- the flag is looked at before what else is in the element -/
theorem Access.fault?_ofElement {k : Kind} (item : String) (e : Element) :
    fault? (Access.ofElement item e : Reading (Access k)) =
      (Demand.error? e (.attributes ["all"])).or ((Demand.error? e (.flag "all")).or
        (fault? (e.items item (Element.asReference : Element → Reading (Reference k))))) := by
  unfold Access.ofElement
  rw [← fault?_allow]
  refine fault?_bind fun _ _ => ?_
  dsimp only [Demand.error?]
  cases e.attribute? "all" with
  | none => exact fault?_bind_pure
  | some value =>
    have hflag := @exists_flag?_iff (Text.trim value)
    dsimp only [Option.bind_some, Demand.valueError?]
    cases hf : flag? (Text.trim value) with
    | none =>
      have hno : Text.trim value ∉ ["yes", "true", "1", "no", "false", "0"] := by
        rw [← hflag, hf]
        exact nofun
      rw [if_neg hno]
      rfl
    | some all =>
      rw [if_pos (hflag.1 ⟨all, hf⟩)]
      exact fault?_bind_pure

theorem Access.guides {k : Kind} (item : String) :
    (Access.role k item).Guides (Access.ofElement item : Element → Reading (Access k)) := by
  intro parent e
  rw [Access.fault?_ofElement, fault?_items item (guides_reference k), fault?_noText, Access.role,
    Element.findSome?_visits]
  simp only [findSome?_cons_or, List.findSome?_nil, Option.or_none, Option.or_assoc]

theorem AuthorizedKeys.guides : AuthorizedKeys.role.Guides AuthorizedKeys.ofElement := by
  unfold role ofElement
  exact guides_fields (.set _ _ (Access.guides _) <| .set _ _ (Access.guides _) .nil) _

namespace Spec

theorem guides_random : randomRole.Guides asRandom := guides_leaf fun e => by
  unfold asRandom
  rw [fault?_bind fun _ _ => fault?_bind fun _ _ => fault?_bind_pure, fault?_allow,
    fault?_noChildren, fault?_noText, findSome?_cons_or, List.findSome?_nil, Option.or_none]

theorem guides_hostname : hostnameRole.Guides hostnameOfElement := by
  unfold hostnameRole hostnameOfElement
  exact guides_fields (.set _ _ guides_text <| .set _ _ guides_random .nil) _

theorem guides_name : nameRole.Guides nameOfElement := by
  intro parent e
  have hr : Guided [.set "Name" Element.asText fun s _ => s] [("Name", text)] :=
    .set _ _ guides_text .nil
  have hbeside : Demand.error? e .blankBesideChildren =
      if e.children = [] then none else Demand.error? e .blank := rfl
  rw [nameRole, Element.findSome?_visits]
  simp only [findSome?_cons_or, List.findSome?_nil, Option.or_none, Option.or_assoc, hbeside]
  unfold nameOfElement
  split
  · next hc =>
    have hc := List.isEmpty_iff.1 hc
    have hchild : Demand.error? e .childless = none := by
      show e.children.head?.map _ = none
      rw [hc]
      rfl
    rw [fault?_asText, hchild, if_pos hc, hc, List.findSome?_nil, Option.or_none, Option.or_none,
      Option.or_none]
  · next hc =>
    have hc := fun h => hc (List.isEmpty_iff.2 h)
    unfold Element.fields
    rw [if_neg hc, fault?_bind fun _ _ => fault?_bind fun _ _ => hr.fault?_changes e "",
      fault?_allow, fault?_noText]

theorem guides_fields : role.Guides fun e => e.fields rules {} := by
  unfold role rules
  exact Role.guides_fields (.setSome _ _ (guides_reference _) <|
    .setSome _ _ (guides_reference _) <| .setSome _ _ Resources.guides <|
    .setSome _ _ DiskTemplate.guides <| .set _ _ (guides_listOf _ SystemDisk.guides) <|
    .set _ _ (guides_listOf _ (guides_reference _)) <|
    .set _ _ (guides_listOf _ NetworkInterface.guides) <| .set _ _ guides_hostname <|
    .set _ _ guides_name <| .set _ _ guides_text <| .setSome _ _ (guides_reference _) <|
    .setSome _ _ AuthorizedKeys.guides <| .set _ _ BackupPolicy.guides_listOf <|
    .set _ _ (guides_listOf _ guides_text) <| .setSome _ _ (guides_reference _) .nil) _

/-- the name of the root is looked at first -/
theorem fault?_root (root : Element) :
    fault? (ofElement root) = (visits root).findSome? Visit.error? := by
  unfold ofElement visits
  rw [List.lookup_cons]
  split
  · next hn =>
    rw [hn, beq_self_eq_true]
    exact guides_fields "document" root
  · next hn =>
    rw [beq_false_of_ne hn]
    exact (Element.findSome?_visits_none "document" root).symm

/-- reading an element fails if and only if an element in it, or the element itself, is wrong where
it stands, and the error is that of the first one in the order of the start tags -/
theorem ofElement_error_iff {root : Element} {err : Error} :
    outcome (ofElement root) = .error err ↔
      ∃ before v after, visits root = before ++ v :: after ∧ v.error? = some err ∧
        ∀ u ∈ before, u.error? = none := by
  rw [← fault?_eq_some, fault?_root, List.findSome?_eq_some_iff]

end Spec

end MachineSpec
