import MachineSpec.Proofs.Markup.Rules
import MachineSpec.Proofs.RoundTrip
import MachineSpec.Spec.Entities

/-!
# One selector for each reference in markup

An element gives a reference one text, under the selector that its marker names.  No child of
another element puts a second text into it, so every reference in a specification that is read from
markup has at most one.

The template of the first disk is not like that.  The children that name it are read into one
reference, so it keeps the last text for each of its selectors, and may end up with two.

* `Spec.each_of_ofElement`          what holds of every reference but the one of the template
* `DiskTemplate.get_of_ofElement`   the texts of a template
* `Spec.diskTemplate_of_ofElement`  the element that the template is read from
* `Spec.decode_xml_exclusive_iff`   when every reference has at most one text
-/

namespace MachineSpec

open Logged (outcome)

theorem forall_mem_none {α : Type} {q : α → Prop} : ∀ a ∈ (none : Option α), q a :=
  fun a h => absurd h (Option.not_mem_none a)

theorem forall_mem_some {α : Type} {q : α → Prop} {a : α} (h : q a) : ∀ b ∈ some a, q b :=
  fun _ hb => Option.some.inj hb ▸ h

open Markup Markup.Element

/-! ## references with an element of their own -/

section each
variable {p : (k : Kind) → Reference k → Prop}
  (hp : ∀ (k : Kind) (e : Element) (x : Reference k), outcome e.asReference = .ok x → p k x)
include hp

theorem Resources.each_of_ofElement (e : Element) (r : Resources)
    (h : outcome (ofElement e) = .ok r) : r.Each p := by
  refine keeps_fields ?_ ⟨forall_mem_none⟩ h
  simp only [List.forall_mem_cons]
  refine ⟨.setSome fun e x hx r h => ?_, .set fun _ _ _ _ h => ?_, .set fun _ _ _ _ h => ?_, nofun⟩
  · exact ⟨forall_mem_some (hp _ e x hx)⟩
  · exact ⟨h.package⟩
  · exact ⟨h.package⟩

theorem SystemDisk.each_of_ofElement (e : Element) (d : SystemDisk)
    (h : outcome (ofElement e) = .ok d) : d.Each p := by
  refine keeps_fields ?_ ⟨forall_mem_none⟩ h
  simp only [List.forall_mem_cons]
  exact ⟨.set fun _ _ _ _ h => ⟨h.ioProfile⟩, .set fun _ _ _ _ h => ⟨h.ioProfile⟩,
    .set fun _ _ _ _ h => ⟨h.ioProfile⟩,
    .setSome fun e x hx _ _ => ⟨forall_mem_some (hp _ e x hx)⟩,
    .set fun _ _ _ _ h => ⟨h.ioProfile⟩, .set fun _ _ _ _ h => ⟨h.ioProfile⟩, nofun⟩

theorem Allocation.each_of_ofElement (e : Element) (a : Allocation)
    (h : outcome (ofElement e) = .ok a) : a.Each p := by
  obtain ⟨_, -, h⟩ := exists_of_outcome_bind h
  obtain ⟨_, -, h⟩ := exists_of_outcome_bind h
  obtain ⟨type, -, h⟩ := exists_of_outcome_bind h
  refine keeps_changes ?_ ⟨forall_mem_none, forall_mem_none⟩ h
  simp only [rules, List.forall_mem_cons]
  exact ⟨.setSome fun e x hx _ h => { h with ipAddress := forall_mem_some (hp _ e x hx) },
    .setSome fun e x hx _ h => { h with subnet := forall_mem_some (hp _ e x hx) },
    .setSome fun _ _ _ _ h => { h with }, nofun⟩

theorem NetworkInterface.each_of_ofElement (e : Element) (i : NetworkInterface)
    (h : outcome (ofElement e) = .ok i) : i.Each p := by
  refine keeps_fields ?_ ⟨forall_mem_none, forall_mem_none, forall_mem_none,
    List.forall_mem_nil _⟩ h
  simp only [List.forall_mem_cons]
  exact ⟨.setSome fun e x hx _ h => { h with network := forall_mem_some (hp _ e x hx) },
    .setSome fun e x hx _ h => { h with virtualNetwork := forall_mem_some (hp _ e x hx) },
    .setSome fun e x hx _ h => { h with speedProfile := forall_mem_some (hp _ e x hx) },
    .set fun e a ha _ h => { h with
      allocations := List.forall_mem_append.2
        ⟨h.allocations, List.forall_mem_singleton.2 (Allocation.each_of_ofElement hp e a ha)⟩ },
    nofun⟩

theorem Access.forall_of_ofElement {k : Kind} {item : String} {e : Element} {a : Access k}
    (h : outcome (ofElement item e) = .ok a) : ∀ x ∈ a.items, p k x := by
  have hitems : ∀ all, outcome (do return (⟨all, ← e.items item asReference⟩ : Access k)) = .ok a →
      ∀ x ∈ a.items, p k x := by
    intro all h
    obtain ⟨items, hitems, h⟩ := exists_of_outcome_bind h
    cases h
    exact forall_of_items (hp k) hitems
  obtain ⟨_, -, h⟩ := exists_of_outcome_bind h
  dsimp only at h
  split at h
  · exact hitems false h
  · split at h
    · exact hitems _ h
    · cases h

theorem AuthorizedKeys.each_of_ofElement (e : Element) (k : AuthorizedKeys)
    (h : outcome (ofElement e) = .ok k) : k.Each p := by
  refine keeps_fields ?_ ⟨List.forall_mem_nil _, List.forall_mem_nil _⟩ h
  simp only [List.forall_mem_cons]
  exact ⟨.set fun e a ha _ h => { h with users := Access.forall_of_ofElement hp ha },
    .set fun e a ha _ h => { h with sshKeys := Access.forall_of_ofElement hp ha }, nofun⟩

omit hp in
theorem Spec.changes_of_ofElement {e : Element} {s : Spec} (h : outcome (ofElement e) = .ok s) :
    outcome (e.changes rules {}) = .ok s := by
  unfold ofElement at h
  split at h
  · exact changes_of_fields h
  · cases h

/-- what holds of every reference that is read from an element of its own holds of every reference
in a specification but the one of its template -/
theorem Spec.each_of_ofElement {e : Element} {s : Spec} (h : outcome (ofElement e) = .ok s) :
    ({ s with diskTemplate := none } : Spec).Each p := by
  refine keeps_changes (p := fun s : Spec => ({ s with diskTemplate := none } : Spec).Each p) ?_ ?_
    (changes_of_ofElement h)
  · simp only [rules, List.forall_mem_cons]
    exact ⟨.setSome fun e x hx _ h => { h with zone := forall_mem_some (hp _ e x hx) },
      .setSome fun e x hx _ h => { h with dataCenter := forall_mem_some (hp _ e x hx) },
      .setSome fun e r hr _ h => { h with
        resources := forall_mem_some (Resources.each_of_ofElement hp e r hr) },
      .setSome fun _ _ _ _ h => { h with },
      .set fun _ ds hd _ h => { h with
        systemDisks := List.forall_mem_append.2
          ⟨h.systemDisks, forall_of_listOf (SystemDisk.each_of_ofElement hp) hd⟩ },
      .set fun _ xs hx _ h => { h with
        sharedDisks := List.forall_mem_append.2 ⟨h.sharedDisks, forall_of_listOf (hp _) hx⟩ },
      .set fun _ is hi _ h => { h with
        networkInterfaces := List.forall_mem_append.2
          ⟨h.networkInterfaces, forall_of_listOf (NetworkInterface.each_of_ofElement hp) hi⟩ },
      .set fun _ _ _ _ h => { h with }, .set fun _ _ _ _ h => { h with },
      .set fun _ _ _ _ h => { h with },
      .setSome fun e x hx _ h => { h with group := forall_mem_some (hp _ e x hx) },
      .setSome fun e k hk _ h => { h with
        authorizedKeys := forall_mem_some (AuthorizedKeys.each_of_ofElement hp e k hk) },
      .set fun _ _ _ _ h => { h with }, .set fun _ _ _ _ h => { h with },
      .setSome fun e x hx _ h => { h with iso := forall_mem_some (hp _ e x hx) }, nofun⟩
  · exact ⟨forall_mem_none, forall_mem_none, forall_mem_none, forall_mem_none,
      List.forall_mem_nil _, List.forall_mem_nil _, List.forall_mem_nil _, forall_mem_none,
      forall_mem_none, forall_mem_none⟩

end each

/-! ## texts in a reference -/

namespace Reference
variable {k : Kind}

/-- a single text is stored under a single selector -/
theorem exclusive_put_empty (i : Fin k.selectors.length) (value : String) :
    (empty.put i value).Exclusive := by
  have h : ∀ j : Fin k.selectors.length, (empty.put i value).values.get j ≠ "" → i = j := by
    intro j hj
    rw [get_put, get_empty] at hj
    exact Decidable.byContradiction fun hij => hj (if_neg hij)
  exact fun j j' hj hj' => (h j hj).symm.trans (h j' hj')

end Reference

namespace Markup.Element

theorem exclusive_of_asReference {k : Kind} {e : Element} {x : Reference k}
    (h : outcome e.asReference = .ok x) : x.Exclusive := by
  obtain ⟨i, -, h⟩ := exists_of_outcome_bind h
  cases h
  exact Reference.exclusive_put_empty i e.text

/-- the selector of an element is the one that its marker names -/
theorem get_of_selector {k : Kind} {e : Element} {i : Fin k.selectors.length}
    (h : outcome (e.selector k) = .ok i) :
    k.selectors.get i = (e.attribute? "by").getD k.primary := by
  obtain ⟨_, -, h⟩ := exists_of_outcome_bind h
  obtain ⟨_, -, h⟩ := exists_of_outcome_bind h
  have hn := of_outcome_adapt h
  rw [Kind.outcome_named] at hn
  cases hj : Reference.index? k ((e.attribute? "by").getD k.primary) with
  | none =>
    rw [hj] at hn
    cases hn
  | some j =>
    rw [hj] at hn
    cases hn
    exact Reference.get_of_index? hj

/-! ## the template -/

/-- the last child of a name -/
def lastChild? (e : Element) (name : String) : Option Element :=
  e.children.reverse.find? fun c => c.name == name

/-- whether a child of a template names it by this selector -/
def names (selector : String) (c : Element) : Bool :=
  c.name == "DiskTemplate" && (c.attribute? "by").getD "id" == selector

def lastText (selector : String) (es : List Element) : String :=
  ((es.reverse.find? (names selector)).map text).getD ""

/-- the text of the last child that names a template by this selector -/
def templateText (e : Element) (selector : String) : String := lastText selector e.children

theorem find?_reverse_concat {α : Type} (p : α → Bool) (as : List α) (a : α) :
    (as ++ [a]).reverse.find? p = if p a then some a else as.reverse.find? p := by
  rw [List.reverse_concat, List.find?_cons]
  cases p a <;> rfl

theorem lastText_concat (selector : String) (es : List Element) (c : Element) :
    lastText selector (es ++ [c]) = if names selector c then c.text else lastText selector es := by
  unfold lastText
  rw [find?_reverse_concat]
  cases names selector c <;> rfl

/-- a child names a template by the selector under which its text is stored, and by no other -/
theorem names_iff {c : Element} (hname : c.name = "DiskTemplate")
    {i : Fin Kind.diskTemplate.selectors.length} (h : outcome (c.selector .diskTemplate) = .ok i)
    (j : Fin Kind.diskTemplate.selectors.length) :
    names (Kind.diskTemplate.selectors.get j) c = true ↔ i = j := by
  have hi : (c.attribute? "by").getD "id" = Kind.diskTemplate.selectors.get i :=
    (get_of_selector h).symm
  unfold names
  rw [hname, beq_self_eq_true, Bool.true_and, beq_iff_eq, hi]
  exact (List.getElem_inj Kind.diskTemplate.selectors_nodup).trans Fin.ext_iff.symm

theorem names_of_ne {c : Element} (hname : c.name ≠ "DiskTemplate") (selector : String) :
    names selector c = false := by
  unfold names
  rw [beq_false_of_ne hname, Bool.false_and]

end Markup.Element

namespace DiskTemplate

/-- every text is stored under its selector, and nothing else changes a reference -/
theorem get_of_change {e child : Element} {f : DiskTemplate → DiskTemplate}
    (h : outcome (e.change rules child) = .ok f) (t : DiskTemplate)
    (j : Fin Kind.diskTemplate.selectors.length) :
    (f t).reference.values.get j =
      if names (Kind.diskTemplate.selectors.get j) child then child.text
      else t.reference.values.get j := by
  obtain ⟨r, hr, hn, hf⟩ := exists_rule h
  simp only [rules, List.mem_cons, List.not_mem_nil, or_false] at hr
  rcases hr with rfl | rfl | rfl
  · obtain ⟨i, hi, hf⟩ := exists_of_outcome_bind hf
    cases hf
    show (t.reference.put i child.text).values.get j = _
    rw [Reference.get_put]
    simp only [names_iff hn.symm hi j]
  all_goals
    obtain ⟨b, -, rfl⟩ := exists_of_outcome_map hf
    have hne : child.name ≠ "DiskTemplate" := by
      rw [← hn]
      decide
    rw [if_neg (by rw [names_of_ne hne]; exact Bool.false_ne_true)]

/-- under each selector a template keeps the last text that was given for it -/
theorem get_of_ofElement {e : Element} {t : DiskTemplate} (h : outcome (ofElement e) = .ok t)
    (i : Fin Kind.diskTemplate.selectors.length) :
    t.reference.values.get i = e.templateText (Kind.diskTemplate.selectors.get i) := by
  refine of_changes (p := fun es t => ∀ i : Fin Kind.diskTemplate.selectors.length,
    t.reference.values.get i = lastText (Kind.diskTemplate.selectors.get i) es)
    (fun es child f b hf hb j => ?_) (fun i => Reference.get_empty i) (changes_of_fields h) i
  rw [get_of_change hf, lastText_concat, hb j]

/-- the selectors of a template are two, so two texts are one too many -/
theorem exclusive_iff_texts {e : Element} {t : DiskTemplate} (h : outcome (ofElement e) = .ok t) :
    t.reference.Exclusive ↔ e.templateText "id" = "" ∨ e.templateText "permalink" = "" := by
  have htexts := get_of_ofElement h
  have hid : t.reference.values.get ⟨0, by decide⟩ = e.templateText "id" := htexts _
  have hpermalink : t.reference.values.get ⟨1, by decide⟩ = e.templateText "permalink" := htexts _
  have htwo : ∀ i : Fin Kind.diskTemplate.selectors.length,
      i = ⟨0, by decide⟩ ∨ i = ⟨1, by decide⟩ := by decide
  rw [← hid, ← hpermalink]
  constructor
  · intro hx
    by_cases h0 : t.reference.values.get ⟨0, by decide⟩ = ""
    · exact .inl h0
    · refine .inr (Decidable.byContradiction fun h1 => ?_)
      exact absurd (hx ⟨0, by decide⟩ ⟨1, by decide⟩ h0 h1) (by decide)
  · intro hempty i j hi hj
    rcases htwo i with rfl | rfl <;> rcases htwo j with rfl | rfl
    · rfl
    · exact absurd hempty (not_or.2 ⟨hi, hj⟩)
    · exact absurd hempty (not_or.2 ⟨hj, hi⟩)
    · rfl

end DiskTemplate

namespace Spec

/-- the template is read anew for each element of its name, and nothing else changes it -/
theorem diskTemplate_of_change {e child : Element} {f : Spec → Spec}
    (h : outcome (e.change rules child) = .ok f) :
    (child.name = "DiskTemplate" ∧ ∃ t, outcome (DiskTemplate.ofElement child) = .ok t ∧
        ∀ s, (f s).diskTemplate = some t) ∨
      (child.name ≠ "DiskTemplate" ∧ ∀ s, (f s).diskTemplate = s.diskTemplate) := by
  obtain ⟨r, hr, hn, hf⟩ := exists_rule h
  rw [← hn]
  simp only [rules, List.mem_cons, List.not_mem_nil, or_false] at hr
  -- only the fourth rule is for a template
  rcases hr with rfl | rfl | rfl | rfl | rfl | rfl | rfl | rfl | rfl | rfl | rfl | rfl | rfl | rfl |
    rfl
  case inr.inr.inr.inl =>
    obtain ⟨t, ht, rfl⟩ := exists_of_outcome_map hf
    exact .inl ⟨rfl, t, ht, fun _ => rfl⟩
  all_goals
    obtain ⟨b, -, rfl⟩ := exists_of_outcome_map hf
    exact .inr ⟨by decide, fun _ => rfl⟩

/-- the template of a specification is the one in the last element of that name -/
theorem diskTemplate_of_ofElement {e : Element} {s : Spec} (h : outcome (ofElement e) = .ok s) :
    (e.lastChild? "DiskTemplate").elim (s.diskTemplate = none) fun c =>
      ∃ t, s.diskTemplate = some t ∧ outcome (DiskTemplate.ofElement c) = .ok t := by
  refine of_changes (p := fun (es : List Element) (s : Spec) =>
    (es.reverse.find? fun c => c.name == "DiskTemplate").elim (s.diskTemplate = none) fun c =>
      ∃ t, s.diskTemplate = some t ∧ outcome (DiskTemplate.ofElement c) = .ok t)
    (fun es child f b hf hb => ?_) ?_ (changes_of_ofElement h)
  · rw [find?_reverse_concat]
    rcases diskTemplate_of_change hf with ⟨hn, t, ht, hput⟩ | ⟨hn, hkeep⟩
    · rw [hn, beq_self_eq_true, if_pos rfl]
      exact ⟨t, hput b, ht⟩
    · rw [beq_false_of_ne hn, if_neg Bool.false_ne_true]
      simp only [hkeep b]
      exact hb
  · rfl

theorem exists_of_decode_xml {bytes : Bytes} {s : Spec} (h : outcome (decode .xml bytes) = .ok s) :
    ∃ cs root, Utf8.decode? bytes = some cs ∧ Element.ofText cs = .ok root ∧
      outcome (ofElement root) = .ok s := by
  change outcome (decodeMarkup bytes) = _ at h
  unfold decodeMarkup at h
  split at h
  · cases h
  · next cs hcs =>
    obtain ⟨_, -, h⟩ := exists_of_outcome_bind h
    have hm := of_outcome_adapt h
    unfold ofMarkup at hm
    split at hm
    · next root hroot => exact ⟨cs, root, hcs, hroot, hm⟩
    · cases hm

/-- every reference that is read from markup has at most one text, but for the one of the template:
it has two if its element names it by both selectors -/
theorem decode_xml_exclusive_iff {bytes : Bytes} {s : Spec}
    (h : outcome (decode .xml bytes) = .ok s) :
    ∃ cs root, Utf8.decode? bytes = some cs ∧ Element.ofText cs = .ok root ∧
      ({ s with diskTemplate := none } : Spec).Exclusive ∧
      (s.Exclusive ↔ ∀ e ∈ root.lastChild? "DiskTemplate",
        e.templateText "id" = "" ∨ e.templateText "permalink" = "") := by
  obtain ⟨cs, root, hcs, hroot, hs⟩ := exists_of_decode_xml h
  have heach : ({ s with diskTemplate := none } : Spec).Exclusive :=
    each_of_ofElement (fun _ _ _ => exclusive_of_asReference) hs
  have htemplate : s.Exclusive ↔ ∀ t ∈ s.diskTemplate, t.reference.Exclusive :=
    ⟨fun h => h.diskTemplate, fun ht => { heach with diskTemplate := ht }⟩
  refine ⟨cs, root, hcs, hroot, heach, htemplate.trans ?_⟩
  have hlast := diskTemplate_of_ofElement hs
  cases hc : root.lastChild? "DiskTemplate" with
  | none =>
    rw [hc] at hlast
    have hnone : s.diskTemplate = none := hlast
    rw [hnone]
    exact ⟨fun _ => forall_mem_none, fun _ => forall_mem_none⟩
  | some c =>
    rw [hc] at hlast
    obtain ⟨t, hst, ht⟩ := hlast
    rw [hst]
    constructor
    · exact fun h => forall_mem_some ((DiskTemplate.exclusive_iff_texts ht).1 (h t rfl))
    · exact fun h => forall_mem_some ((DiskTemplate.exclusive_iff_texts ht).2 (h c rfl))

/-- a written tree holds the specification in its element -/
theorem outcome_decode_print {n : Node} (h : n.isSound = true) {s : Spec}
    (hs : outcome (ofElement n.toElement) = .ok s) {text : String}
    (htext : text = declaration ++ n.print) :
    outcome (decode .xml (Utf8.encode text)) = .ok s := by
  refine outcome_decode_xml ?_
  unfold ofMarkup
  rw [htext, Element.ofText_declaration h]
  exact hs

/-- a template that is named by both of its selectors, one after the other -/
def doublyNamed : String := declaration ++ String.join [
  "<VirtualMachineSpec>", "<DiskTemplate>",
  "<DiskTemplate>", "a", "</DiskTemplate>",
  "<DiskTemplate by=\"permalink\">", "b", "</DiskTemplate>",
  "</DiskTemplate>", "</VirtualMachineSpec>"]

/-- both texts are kept -/
theorem outcome_decode_doublyNamed :
    outcome (decode .xml (Utf8.encode doublyNamed)) =
      .ok { diskTemplate := some { reference := ⟨#v["a", "b"]⟩ } } := by
  let node : Node := .group "VirtualMachineSpec" [] [
    .group "DiskTemplate" [] [
      .leaf "DiskTemplate" [] "a",
      .leaf "DiskTemplate" [("by", "permalink")] "b"]]
  have hprint : doublyNamed = declaration ++ node.print :=
    congrArg (fun lexemes => declaration ++ String.join lexemes) (by decide : _ = node.lexemes)
  exact outcome_decode_print (by decide : node.isSound = true) rfl hprint

/-- the statement at a template with two texts -/
theorem decode_xml_exclusive_iff_doublyNamed :
    outcome (decode .xml (Utf8.encode doublyNamed)) =
        .ok { diskTemplate := some { reference := ⟨#v["a", "b"]⟩ } } ∧
      ∃ cs root, Utf8.decode? (Utf8.encode doublyNamed) = some cs ∧
        Element.ofText cs = .ok root ∧
        ({ diskTemplate := none } : Spec).Exclusive ∧
        (({ diskTemplate := some { reference := ⟨#v["a", "b"]⟩ } } : Spec).Exclusive ↔
          ∀ e ∈ root.lastChild? "DiskTemplate",
            e.templateText "id" = "" ∨ e.templateText "permalink" = "") :=
  ⟨outcome_decode_doublyNamed, decode_xml_exclusive_iff outcome_decode_doublyNamed⟩

theorem decode_xml_not_exclusive :
    ∃ s, outcome (decode .xml (Utf8.encode doublyNamed)) = .ok s ∧ ¬s.Exclusive := by
  refine ⟨_, outcome_decode_doublyNamed, fun h => ?_⟩
  exact absurd (h.diskTemplate _ rfl) (by decide)

end Spec

end MachineSpec
