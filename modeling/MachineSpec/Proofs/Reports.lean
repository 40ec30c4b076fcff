import MachineSpec.Codec
import MachineSpec.Proofs.Reference.Selection
import MachineSpec.Spec.Mentions

/-!
# What is reported when a specification is written

Every reference that is written is looked at once, in the order of the fields, and reported if it is
not written by its primary selector.  Only the template of the first disk is looked at twice in
markup: once to see whether there is anything to write, and once to write it.

* `Lookup.log_select`      the report of one look
* `Spec.log_toDocument`    the reports of a document
* `Spec.log_toMarkup`      the reports of markup
* `Spec.log_encode`        the reports of each format, and when they are alike
* `Spec.log_encode_twice`  a template that is reported twice
-/

namespace MachineSpec

open Logged

/-! ## one look -/

namespace Reference
variable {k : Kind}

theorem leading?_eq (r : Reference k) : r.leading? = r.selection?.map (·.selector) := by
  have hany : ∀ value? : Option String, value?.any (· ≠ "") = decide (value?.getD "" ≠ "") := by
    rintro (_ | value) <;> rfl
  unfold leading? selection?
  simp only [hany, entries_eq, List.find?_map, Option.map_map]
  exact Option.map_id'.symm

end Reference

/-- a look at an entity is reported unless it is written by its primary selector -/
theorem Lookup.log_select {α : Type} [Lookup α] (a : α) :
    (select a).log = Mention.reports ⟨kind α, reference a⟩ := by
  have hlog : (select a).log =
      ((selection? a).bind Selection.marker?).toList.map (.selected (kind α)) := by
    unfold select
    dsimp only
    cases (selection? a).bind Selection.marker? <;> rfl
  rw [hlog]
  unfold Mention.reports
  rw [Reference.leading?_eq]
  cases h : (reference a).selection? with
  | none =>
    have hs : selection? a = none := h
    rw [hs]
    rfl
  | some s =>
    obtain ⟨-, hp, -⟩ := Reference.exists_selection h
    have hs : selection? a = some s := h
    rw [hs]
    show (Selection.marker? s).toList.map (Log.Entry.selected (kind α)) =
      if s.selector = (kind α).primary then [] else [.selected (kind α) s.selector]
    unfold Selection.marker?
    rw [hp]
    by_cases hprimary : s.selector = (kind α).primary
    · rw [decide_eq_true hprimary, if_pos hprimary]
      rfl
    · rw [decide_eq_false hprimary, if_neg hprimary]
      rfl

/-! ## documents -/

namespace Members
variable {α : Type} {f : α → Logged Document}

theorem log_record (groups : List (Logged Members)) :
    (record groups).log = groups.flatMap (·.log) := by
  unfold record
  rw [log_bind, log_mapM, log_pure, List.append_nil]
  rfl

theorem log_optional (key : String) (part : Option α) :
    (optional key part f).log = part.toList.flatMap fun a => (f a).log := by
  cases part with
  | none => rfl
  | some a => rw [Option.toList_some, List.flatMap_singleton]; exact List.append_nil _

theorem log_each (key : String) (parts : List α) :
    (each key parts f).log = parts.flatMap fun a => (f a).log := by
  unfold each
  rw [log_bind, log_mapM, log_pure, List.append_nil]

theorem log_selected [Lookup α] (a : α) :
    (selected a).log = Mention.reports ⟨Lookup.kind α, Lookup.reference a⟩ := by
  unfold selected
  rw [log_bind, Lookup.log_select, Lookup.value_select]
  cases Lookup.selection? a <;> exact List.append_nil _

/-- those on a list are looked at one by one, unless a flag stands for them -/
theorem log_granted {k : Kind} {f : Reference k → Logged Document}
    (h : ∀ r, (f r).log = Mention.reports ⟨k, r⟩) (all only : String) (a : Access k) :
    (granted all only a f).log = a.mentions.flatMap Mention.reports := by
  obtain ⟨flag, items⟩ := a
  cases flag with
  | true => rfl
  | false =>
    cases items with
    | nil => rfl
    | cons r rs =>
      show (each only (r :: rs) f).log = ((r :: rs).map (Mention.mk k)).flatMap Mention.reports
      simp only [log_each, List.flatMap_map, h]

end Members

section documents

open Members

theorem Reference.log_toDocument {k : Kind} (r : Reference k) :
    r.toDocument.log = Mention.reports ⟨k, r⟩ := by
  unfold toDocument
  rw [log_record, List.flatMap_singleton]
  exact log_selected r

theorem Resources.log_toDocument (r : Resources) :
    r.toDocument.log = r.mentions.flatMap Mention.reports := by
  unfold toDocument mentions
  simp [log_record, log_optional, Reference.log_toDocument, List.flatMap_map]

theorem DiskTemplate.log_toDocument (t : DiskTemplate) :
    t.toDocument.log = t.mention.reports := by
  have h : (selected t).log = t.mention.reports := log_selected t
  unfold toDocument
  simp [log_record, h]

theorem Schedule.log_toDocument (s : Schedule) : s.toDocument.log = [] := by
  unfold toDocument
  simp [log_record]

theorem BackupPolicy.log_toDocument (p : BackupPolicy) : p.toDocument.log = [] := by
  unfold toDocument
  simp [log_record, log_optional, Schedule.log_toDocument]

theorem SystemDisk.log_toDocument (d : SystemDisk) :
    d.toDocument.log = d.mentions.flatMap Mention.reports := by
  unfold toDocument mentions
  simp [log_record, log_optional, log_each, Reference.log_toDocument, BackupPolicy.log_toDocument,
    List.flatMap_map]

theorem Allocation.log_toDocument (a : Allocation) :
    a.toDocument.log = a.mentions.flatMap Mention.reports := by
  unfold toDocument mentions
  simp [log_record, log_optional, Reference.log_toDocument, List.flatMap_map]

theorem NetworkInterface.log_toDocument (i : NetworkInterface) :
    i.toDocument.log = i.mentions.flatMap Mention.reports := by
  unfold toDocument mentions
  simp [log_record, log_optional, log_each, Reference.log_toDocument, Allocation.log_toDocument,
    List.flatMap_map, List.flatMap_assoc]

theorem AuthorizedKeys.log_toDocument (k : AuthorizedKeys) :
    k.toDocument.log = k.mentions.flatMap Mention.reports := by
  unfold toDocument mentions
  simp [log_record, log_granted Reference.log_toDocument]

/-- every reference that is written in a document is looked at once, in the order of the fields -/
theorem Spec.log_toDocument (s : Spec) :
    s.toDocument.log = s.mentions.flatMap Mention.reports := by
  unfold toDocument mentions mentionsBefore templateMention mentionsBehind
  simp [log_record, log_optional, log_each, Reference.log_toDocument, Resources.log_toDocument,
    DiskTemplate.log_toDocument, SystemDisk.log_toDocument, NetworkInterface.log_toDocument,
    AuthorizedKeys.log_toDocument, BackupPolicy.log_toDocument, List.flatMap_map,
    List.flatMap_assoc]

end documents

/-! ## markup -/

namespace Nodes
variable {α : Type} {f : α → Logged Markup.Node}

theorem log_join (groups : List (Logged Nodes)) : (join groups).log = groups.flatMap (·.log) := by
  unfold join
  rw [log_bind, log_mapM, log_pure, List.append_nil]
  rfl

theorem log_element (name : String) (as : List (String × String)) (groups : List (Logged Nodes)) :
    (element name as groups).log = groups.flatMap (·.log) := by
  unfold element
  rw [log_bind, log_join, log_pure, List.append_nil]

theorem log_optional (part : Option α) :
    (optional part f).log = part.toList.flatMap fun a => (f a).log := by
  cases part with
  | none => rfl
  | some a => rw [Option.toList_some, List.flatMap_singleton]; exact List.append_nil _

theorem log_wrapped (name : String) (items : List α) (f : α → Logged Nodes) :
    (wrapped name items f).log = items.flatMap fun a => (f a).log := by
  cases items with
  | nil => rfl
  | cons a as =>
    show ((element name [] ((a :: as).map f)) >>= _).log = _
    rw [log_bind, log_element, log_pure, List.append_nil, List.flatMap_map]

theorem log_each (name : String) (items : List α) :
    (each name items f).log = items.flatMap fun a => (f a).log := by
  unfold each
  simp [log_wrapped]

theorem log_selected [Lookup α] (name : String) (a : α) :
    (selected name a).log = Mention.reports ⟨Lookup.kind α, Lookup.reference a⟩ := by
  unfold selected
  rw [log_bind, Lookup.log_select, Lookup.value_select]
  cases Lookup.selection? a with
  | none => exact List.append_nil _
  | some s =>
    dsimp only
    cases s.marker? <;> exact List.append_nil _

theorem log_selected_reference {k : Kind} (name : String) (r : Reference k) :
    (selected name r).log = Mention.reports ⟨k, r⟩ := log_selected name r

theorem log_granted {k : Kind} (name item : String) (a : Access k) :
    (granted name item a).log = a.mentions.flatMap Mention.reports := by
  obtain ⟨flag, items⟩ := a
  cases flag with
  | true => rfl
  | false =>
    cases items with
    | nil => rfl
    | cons r rs =>
      show (each name (r :: rs) (selected item)).log =
        ((r :: rs).map (Mention.mk k)).flatMap Mention.reports
      simp only [log_each, List.flatMap_map, log_selected_reference]

end Nodes

open Nodes

theorem Resources.log_toMarkup (r : Resources) :
    r.toMarkup.log = r.mentions.flatMap Mention.reports := by
  unfold toMarkup mentions
  simp [log_element, log_optional, log_selected_reference, List.flatMap_map]

/-- a template is looked at before it is written -/
theorem DiskTemplate.log_toMarkup (t : DiskTemplate) :
    t.toMarkup.log = t.mention.reports ++ t.mention.reports := by
  have hreference : t.referenceMarkup.log = t.mention.reports ++ t.mention.reports := by
    unfold referenceMarkup
    rw [log_bind, Lookup.log_select, Lookup.value_select]
    refine congrArg (t.mention.reports ++ ·) ?_
    cases h : Lookup.selection? t with
    | none =>
      have hs : t.reference.selection? = none := h
      unfold Mention.reports mention
      rw [Reference.leading?_eq, hs]
      rfl
    | some s =>
      dsimp only
      rw [log_bind, log_selected, log_pure, List.append_nil]
      rfl
  unfold toMarkup
  simp [log_element, hreference]

theorem SystemDisk.log_toMarkup (d : SystemDisk) :
    d.toMarkup.log = d.mentions.flatMap Mention.reports := by
  unfold toMarkup mentions
  simp [log_element, log_optional, log_each, log_selected_reference, List.flatMap_map]

theorem Allocation.log_toMarkup (a : Allocation) :
    a.toMarkup.log = a.mentions.flatMap Mention.reports := by
  unfold toMarkup mentions
  simp [log_element, log_optional, log_selected_reference, List.flatMap_map]

theorem NetworkInterface.log_toMarkup (i : NetworkInterface) :
    i.toMarkup.log = i.mentions.flatMap Mention.reports := by
  unfold toMarkup mentions
  simp [log_element, log_optional, log_selected_reference, Allocation.log_toMarkup,
    List.flatMap_map, List.flatMap_assoc]

theorem AuthorizedKeys.log_toMarkup (k : AuthorizedKeys) :
    k.toMarkup.log = k.mentions.flatMap Mention.reports := by
  unfold toMarkup mentions
  simp [log_element, log_granted]

namespace Spec

/-- in markup a template is looked at twice, and every other reference once -/
theorem log_toMarkup (s : Spec) :
    s.toMarkup.log = (s.mentionsBefore ++ (s.templateMention ++ s.templateMention) ++
      s.mentionsBehind).flatMap Mention.reports := by
  have htemplate : s.diskTemplate.toList.flatMap (fun t => t.toMarkup.log) =
      (s.templateMention ++ s.templateMention).flatMap Mention.reports := by
    unfold templateMention
    cases s.diskTemplate with
    | none => rfl
    | some t => simp [DiskTemplate.log_toMarkup]
  -- neither backup policies nor tags are references
  have hpolicies : s.backupPolicies.flatMap (fun _ => ([] : List Log.Entry)) = [] :=
    List.flatMap_eq_nil_iff.2 fun _ _ => rfl
  have htags : s.tags.flatMap (fun _ => ([] : List Log.Entry)) = [] :=
    List.flatMap_eq_nil_iff.2 fun _ _ => rfl
  rw [List.flatMap_append, List.flatMap_append, ← htemplate]
  unfold toMarkup mentionsBefore mentionsBehind
  simp [log_element, log_optional, log_each, log_wrapped, log_selected_reference,
    Resources.log_toMarkup, SystemDisk.log_toMarkup, NetworkInterface.log_toMarkup,
    AuthorizedKeys.log_toMarkup, List.flatMap_map, List.flatMap_assoc, hpolicies, htags]

/-! ## formats -/

theorem log_encode_document {format : Format} (h : format ≠ .xml) (s : Spec) :
    (s.encode format).log = .encoding format :: s.toDocument.log := by
  unfold encode print lexemes
  cases format with
  | xml => exact absurd rfl h
  | _ => simp

theorem log_encode_markup (s : Spec) :
    (s.encode .xml).log = .encoding .xml :: s.toMarkup.log := by
  unfold encode print lexemes
  simp

theorem flatMap_templateMention_eq_nil (s : Spec) :
    s.templateMention.flatMap Mention.reports = [] ↔
      ∀ t ∈ s.diskTemplate, t.mention.reports = [] := by
  unfold templateMention
  cases s.diskTemplate <;> simp

/-- writing a specification is reported first, and then, in the order of the fields, every reference
that is written by another than its primary selector, once; only the template is reported twice in
markup, so the formats report alike unless there is a template to be reported -/
theorem log_encode (s : Spec) :
    (∀ format, format ≠ .xml →
      (s.encode format).log = .encoding format :: s.mentions.flatMap Mention.reports) ∧
    (s.encode .xml).log = .encoding .xml :: (s.mentionsBefore ++
      (s.templateMention ++ s.templateMention) ++ s.mentionsBehind).flatMap Mention.reports ∧
    ((s.encode .xml).log.tail = s.mentions.flatMap Mention.reports ↔
      ∀ t ∈ s.diskTemplate, t.mention.reports = []) := by
  have hmarkup := (log_encode_markup s).trans (congrArg (_ :: ·) s.log_toMarkup)
  refine ⟨fun format h => ?_, hmarkup, ?_⟩
  · rw [log_encode_document h, log_toDocument]
  · rw [hmarkup, List.tail_cons, ← flatMap_templateMention_eq_nil]
    unfold mentions
    simp [List.flatMap_append]

/-- a template that is not written by its primary selector is reported twice in markup -/
theorem log_encode_twice :
    ¬ ∀ (format : Format) (s : Spec),
      (s.encode format).log = .encoding format :: s.mentions.flatMap Mention.reports := by
  intro h
  have hlog := h .xml { diskTemplate := some { reference := ⟨#v["", "a"]⟩ } }
  revert hlog
  decide

end Spec

end MachineSpec
