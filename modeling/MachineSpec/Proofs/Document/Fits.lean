import MachineSpec.Document.Layout
import MachineSpec.Document.Shape
import MachineSpec.Proofs.Reference.Selection

/-!
# Documents of a shape

A document fits a shape if it is of its sort throughout, every word of a choice is one of the known
words, and no record has a key that is unknown or comes twice.  The documents that are written fit
the shape that they are read with, since a record is written field by field in the order in which
its shape lists them.

* `Shape.Fits`       a document of a shape
* `Members.Follow`   members that follow the fields of a record
* `Spec.fits`        the document of a specification fits the shape of specifications
-/

namespace MachineSpec

/-- where no name comes twice, a look-up finds whatever stands under a name -/
theorem lookup_of_mem {β : Type} {fields : List (String × β)} (hn : (fields.map (·.1)).Nodup)
    {key : String} {value : β} (h : (key, value) ∈ fields) : fields.lookup key = some value := by
  induction fields with
  | nil => exact (List.not_mem_nil h).elim
  | cons field fields ih =>
    obtain ⟨hnf, hn⟩ := List.nodup_cons.1 hn
    rw [List.lookup_cons]
    rcases List.mem_cons.1 h with rfl | h
    · rw [beq_self_eq_true]
    · have hne : key ≠ field.1 := fun he => hnf (List.mem_map.2 ⟨_, h, he⟩)
      rw [beq_false_of_ne hne]
      exact ih hn h

theorem mem_of_lookup {β : Type} {fields : List (String × β)} {key : String} {value : β}
    (h : fields.lookup key = some value) : (key, value) ∈ fields := by
  obtain ⟨before, behind, rfl, -⟩ := List.lookup_eq_some_iff.1 h
  exact List.mem_append_right _ List.mem_cons_self

/-- a document of a shape -/
inductive Shape.Fits : Shape → Document → Prop
  | text (s : String) : Fits .text (.text s)
  | number (n : UInt32) : Fits .number (.number n)
  | flag (b : Bool) : Fits .flag (.flag b)
  | choice {words : List String} {s : String} (known : words.contains s = true) :
      Fits (.choice words) (.text s)
  | list {item : Shape} {ds : List Document} (items : ∀ d ∈ ds, Fits item d) :
      Fits (.list item) (.list ds)
  | record {title : String} {fields : List (String × Shape)} {ms : List (String × Document)}
      (once : (ms.map (·.1)).Nodup) (known : ∀ m ∈ ms, ∃ shape, fields.lookup m.1 = some shape)
      (members : ∀ m ∈ ms, ∀ shape, fields.lookup m.1 = some shape → Fits shape m.2) :
      Fits (.record title fields) (.record ms)

namespace Members

/-- members that follow the fields of a record; fields may be left out -/
inductive Follow : List (String × Shape) → Members → Prop
  | nil : Follow [] []
  | skip {field : String × Shape} {fields : List (String × Shape)} {ms : Members}
      (rest : Follow fields ms) : Follow (field :: fields) ms
  | take {key : String} {shape : Shape} {d : Document} {fields : List (String × Shape)}
      {ms : Members} (fits : shape.Fits d) (rest : Follow fields ms) :
      Follow ((key, shape) :: fields) ((key, d) :: ms)

namespace Follow
variable {fields : List (String × Shape)} {ms : Members}

theorem sublist (h : Follow fields ms) : (ms.map (·.1)).Sublist (fields.map (·.1)) := by
  induction h with
  | nil => exact List.Sublist.slnil
  | skip _ ih => exact ih.cons _
  | take _ _ ih => exact ih.cons_cons _

theorem exists_field (h : Follow fields ms) {m : String × Document} (hm : m ∈ ms) :
    ∃ shape, (m.1, shape) ∈ fields ∧ shape.Fits m.2 := by
  induction h with
  | nil => exact (List.not_mem_nil hm).elim
  | skip _ ih =>
    obtain ⟨shape, hs, hf⟩ := ih hm
    exact ⟨shape, List.mem_cons_of_mem _ hs, hf⟩
  | take fits _ ih =>
    rcases List.mem_cons.1 hm with rfl | hm
    · exact ⟨_, List.mem_cons_self, fits⟩
    · obtain ⟨shape, hs, hf⟩ := ih hm
      exact ⟨shape, List.mem_cons_of_mem _ hs, hf⟩

/-- members that follow fields of different names make a record -/
theorem record {title : String} (h : Follow fields ms) (hn : (fields.map (·.1)).Nodup) :
    (Shape.record title fields).Fits (.record ms) := by
  refine .record (h.sublist.nodup hn) (fun m hm => ?_) fun m hm shape hl => ?_
  · obtain ⟨shape, hs, -⟩ := h.exists_field hm
    exact ⟨shape, lookup_of_mem hn hs⟩
  · obtain ⟨shape', hs, hf⟩ := h.exists_field hm
    rw [lookup_of_mem hn hs] at hl
    cases hl
    exact hf

theorem skips (names : List String) (h : Follow fields ms) :
    Follow (names.map (·, Shape.text) ++ fields) ms := by
  induction names with
  | nil => exact h
  | cons name names ih => exact .skip ih

theorem takes {names : List String} {name : String} (hm : name ∈ names) (value : String)
    (h : Follow fields ms) :
    Follow (names.map (·, Shape.text) ++ fields) ((name, .text value) :: ms) := by
  induction names with
  | nil => exact (List.not_mem_nil hm).elim
  | cons n names ih =>
    rcases List.mem_cons.1 hm with rfl | hm
    · exact .take (.text value) (skips names h)
    · exact .skip (ih hm)

end Follow

/-! ## groups of members -/

theorem value_record (groups : List (Logged Members)) :
    (record groups).value = .record (groups.flatMap (·.value)) := by
  unfold record
  rw [Logged.value_bind, Logged.value_mapM]
  exact congrArg Document.record List.flatMap_def.symm

theorem value_selected {α : Type} [Lookup α] (a : α) :
    (selected a).value = (Lookup.selection? a).elim [] fun s => [(s.selector, .text s.value)] := by
  unfold selected
  rw [Logged.value_bind, Lookup.value_select]
  cases Lookup.selection? a <;> rfl

namespace Follow
variable {fields : List (String × Shape)} {gs : List (Logged Members)} {key : String} {α : Type}

theorem text (s : String) (h : Follow fields (gs.flatMap (·.value))) :
    Follow ((key, .text) :: fields) ((pure (Members.text key s) :: gs).flatMap (·.value)) := by
  show Follow _ (Members.text key s ++ _)
  unfold Members.text
  split
  · exact .skip h
  · exact .take (.text s) h

theorem number (n : UInt32) (h : Follow fields (gs.flatMap (·.value))) :
    Follow ((key, .number) :: fields) ((pure (Members.number key n) :: gs).flatMap (·.value)) := by
  show Follow _ (Members.number key n ++ _)
  unfold Members.number
  split
  · exact .skip h
  · exact .take (.number n) h

theorem keyword [Keyword α] [LawfulKeyword α] (a : Option α)
    (h : Follow fields (gs.flatMap (·.value))) :
    Follow ((key, Keyword.shape α) :: fields)
      ((pure (Members.keyword key a) :: gs).flatMap (·.value)) := by
  cases a with
  | none => exact .skip h
  | some a =>
    have ha : a ∈ (Keyword.all : List α) :=
      List.mem_of_find?_eq_some (LawfulKeyword.ofWord?_word a)
    have hw : (Keyword.words α).contains (Keyword.word a) = true :=
      List.contains_iff_mem.2 (List.mem_map_of_mem ha)
    exact .take (.choice hw) h

variable {shape : Shape} {f : α → Logged Document}

theorem optional (hf : ∀ a, shape.Fits (f a).value) (part : Option α)
    (h : Follow fields (gs.flatMap (·.value))) :
    Follow ((key, shape) :: fields) ((Members.optional key part f :: gs).flatMap (·.value)) := by
  cases part with
  | none => exact .skip h
  | some a => exact .take (hf a) h

theorem list {ds : List Document} (hd : ∀ d ∈ ds, shape.Fits d)
    (h : Follow fields (gs.flatMap (·.value))) :
    Follow ((key, .list shape) :: fields)
      ((pure (Members.list key ds) :: gs).flatMap (·.value)) := by
  show Follow _ (Members.list key ds ++ _)
  unfold Members.list
  split
  · exact .skip h
  · exact .take (.list hd) h

theorem each (hf : ∀ a, shape.Fits (f a).value) (parts : List α)
    (h : Follow fields (gs.flatMap (·.value))) :
    Follow ((key, .list shape) :: fields)
      ((Members.each key parts f :: gs).flatMap (·.value)) := by
  refine list (fun d hd => ?_) h
  rw [Logged.value_mapM] at hd
  obtain ⟨a, -, rfl⟩ := List.mem_map.1 hd
  exact hf a

theorem granted {k : Kind} {all : String} {f : Reference k → Logged Document}
    (hf : ∀ r, shape.Fits (f r).value) (a : Access k) (h : Follow fields (gs.flatMap (·.value))) :
    Follow ((all, .flag) :: (key, .list shape) :: fields)
      ((Members.granted all key a f :: gs).flatMap (·.value)) := by
  show Follow _ ((Members.granted all key a f).value ++ _)
  unfold Members.granted
  cases a.grant with
  | all => exact .take (.flag true) (.skip h)
  | only items => exact .skip (each hf items h)
  | nothing => exact .skip (.skip h)

/-- a selection is a text under one of the selectors -/
theorem selected [Lookup α] (a : α) (h : Follow fields (gs.flatMap (·.value))) :
    Follow ((Lookup.kind α).selectors.map (·, .text) ++ fields)
      ((Members.selected a :: gs).flatMap (·.value)) := by
  show Follow _ ((Members.selected a).value ++ _)
  rw [Members.value_selected]
  cases hs : Lookup.selection? a with
  | none => exact skips _ h
  | some s =>
    obtain ⟨-, -, i, hi⟩ := Reference.exists_selection hs
    have hm : s.selector ∈ (Lookup.kind α).selectors := by
      rw [← Reference.get_of_index? hi]
      exact List.get_mem _ _
    exact takes hm s.value h

theorem done : Follow [] (([] : List (Logged Members)).flatMap (·.value)) := .nil

end Follow

end Members

/-! ## the parts of a specification -/

open Members

theorem Kind.nodup_fields (k : Kind) : ((k.selectors.map (·, Shape.text)).map Prod.fst).Nodup := by
  rw [List.map_map]
  show (k.selectors.map fun name => name).Nodup
  rw [List.map_id']
  exact k.selectors_nodup

theorem Reference.fits {k : Kind} (r : Reference k) : k.shape.Fits r.toDocument.value := by
  have h := Follow.selected r .done
  rw [List.append_nil] at h
  unfold toDocument Kind.shape
  rw [value_record]
  exact h.record k.nodup_fields

theorem Resources.fits (r : Resources) : shape.Fits r.toDocument.value := by
  unfold toDocument shape
  rw [value_record]
  refine Follow.record ?_ (by decide)
  exact .optional Reference.fits _ (.number _ (.number _ .done))

theorem TemplateOption.fits (o : TemplateOption) : shape.Fits o.toDocument := by
  have h : Follow [("key", .text), ("value", .text)]
      [("key", .text o.key), ("value", .text o.value)] :=
    .take (.text o.key) (.take (.text o.value) .nil)
  exact h.record (by decide)

theorem DiskTemplate.fits (t : DiskTemplate) : shape.Fits t.toDocument.value := by
  unfold toDocument shape
  rw [value_record]
  refine Follow.record (.selected t (.number _ (.list (fun d hd => ?_) .done))) (by decide)
  obtain ⟨o, -, rfl⟩ := List.mem_map.1 hd
  exact o.fits

theorem Schedule.fits (s : Schedule) : shape.Fits s.toDocument.value := by
  unfold toDocument shape
  rw [value_record]
  exact Follow.record (.keyword _ (.number _ (.number _ .done))) (by decide)

theorem BackupPolicy.fits (p : BackupPolicy) : shape.Fits p.toDocument.value := by
  unfold toDocument shape
  rw [value_record]
  exact Follow.record (.number _ (.optional Schedule.fits _ .done)) (by decide)

theorem SystemDisk.fits (d : SystemDisk) : shape.Fits d.toDocument.value := by
  unfold toDocument shape
  rw [value_record]
  refine Follow.record (.text _ (.number _ (.text _ ?_))) (by decide)
  exact .optional Reference.fits _ (.text _ (.each BackupPolicy.fits _ .done))

theorem Allocation.fits (a : Allocation) : shape.Fits a.toDocument.value := by
  unfold toDocument shape
  rw [value_record]
  refine Follow.record (.keyword _ (.optional Reference.fits _ ?_)) (by decide)
  exact .optional Reference.fits _ (.keyword _ .done)

theorem NetworkInterface.fits (i : NetworkInterface) : shape.Fits i.toDocument.value := by
  unfold toDocument shape
  rw [value_record]
  refine Follow.record (.optional Reference.fits _ (.optional Reference.fits _ ?_)) (by decide)
  exact .optional Reference.fits _ (.each Allocation.fits _ .done)

theorem AuthorizedKeys.fits (k : AuthorizedKeys) : shape.Fits k.toDocument.value := by
  unfold toDocument shape
  rw [value_record]
  exact Follow.record (.granted Reference.fits _ (.granted Reference.fits _ .done)) (by decide)

/-- the document of a specification fits the shape that specifications are read with -/
theorem Spec.fits (s : Spec) : shape.Fits s.toDocument.value := by
  unfold toDocument shape
  rw [value_record]
  refine Follow.record (.optional Reference.fits _ (.optional Reference.fits _ ?_)) (by decide)
  refine .optional Resources.fits _ (.optional DiskTemplate.fits _ ?_)
  refine .each SystemDisk.fits _ (.each Reference.fits _ (.each NetworkInterface.fits _ ?_))
  refine .text _ (.text _ (.text _ (.optional Reference.fits _ ?_)))
  refine .optional AuthorizedKeys.fits _ (.each BackupPolicy.fits _ ?_)
  refine .list (fun d hd => ?_) (.optional Reference.fits _ .done)
  obtain ⟨t, -, rfl⟩ := List.mem_map.1 hd
  exact .text t

end MachineSpec
