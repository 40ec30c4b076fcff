import MachineSpec.Proofs.Document.Fits
import MachineSpec.Zeros

/-!
# Zeros of written documents

Each kind of member is left out where it is zero, so nothing in a written document is; but for the
key and the value of a template option, which are written in any case.

* `Document.IsFull`       a document in which nothing is zero
* `Members.zerosOf`       the zeros in groups of members
* `Members.zerosOf_text`, `zerosOf_number`, ...   one group
* `Spec.zeros_toDocument` the zeros in the document of a specification
-/

namespace MachineSpec

/-- nothing in a document is zero, nor is the whole -/
structure Document.IsFull (d : Document) : Prop where
  whole : d.isZero = false
  below : d.zeros = []

namespace Document

theorem isFull_text {s : String} (h : s ≠ "") : IsFull (.text s) := ⟨decide_eq_false h, rfl⟩

theorem isFull_number {n : UInt32} (h : n ≠ 0) : IsFull (.number n) := ⟨decide_eq_false h, rfl⟩

theorem memberZeros_append (ms ms' : List (String × Document)) :
    memberZeros (ms ++ ms') = memberZeros ms ++ memberZeros ms' := by
  induction ms with
  | nil => rfl
  | cons m ms ih =>
    obtain ⟨key, d⟩ := m
    rw [List.cons_append, memberZeros, memberZeros, ih, List.append_assoc]

theorem itemZeros_eq (ds : List Document) : itemZeros ds = ds.flatMap zeros := by
  induction ds with
  | nil => rfl
  | cons d ds ih => rw [itemZeros, ih, List.flatMap_cons]

theorem memberZeros_one (key : String) (d : Document) :
    memberZeros [(key, d)] = zerosUnder key d.isZero d.zeros := List.append_nil _

theorem zerosUnder_filled (key : String) (below : List KeyPath) :
    zerosUnder key false below = below.map (key :: ·) := List.nil_append _

/-- a member in which nothing is zero -/
theorem memberZeros_full {d : Document} (h : d.IsFull) (key : String) :
    memberZeros [(key, d)] = [] := by
  rw [memberZeros_one, h.whole, h.below]
  rfl

end Document

namespace Members

open Document (memberZeros)

/-! ## groups of members -/

/-- the zeros in groups of members -/
def zerosOf (gs : List (Logged Members)) : List KeyPath := memberZeros (gs.flatMap (·.value))

theorem isFull_record {gs : List (Logged Members)} (h : zerosOf gs = []) :
    (record gs).value.IsFull := by
  rw [value_record]
  exact ⟨rfl, h⟩

variable {gs : List (Logged Members)} {key : String} {α : Type}

theorem zerosOf_nil : zerosOf [] = [] := rfl

theorem zerosOf_cons (g : Logged Members) : zerosOf (g :: gs) = memberZeros g.value ++ zerosOf gs :=
  Document.memberZeros_append _ _

theorem zerosOf_text (s : String) : zerosOf (pure (text key s) :: gs) = zerosOf gs := by
  have hs : memberZeros (text key s) = [] := by
    unfold text
    split
    · rfl
    · next hs => exact Document.memberZeros_full (Document.isFull_text hs) key
  rw [zerosOf_cons, Logged.value_pure, hs, List.nil_append]

theorem zerosOf_number (n : UInt32) : zerosOf (pure (number key n) :: gs) = zerosOf gs := by
  have hn : memberZeros (number key n) = [] := by
    unfold number
    split
    · rfl
    · next hn => exact Document.memberZeros_full (Document.isFull_number hn) key
  rw [zerosOf_cons, Logged.value_pure, hn, List.nil_append]

theorem zerosOf_keyword [Keyword α] [LawfulKeyword α] (h : "" ∉ Keyword.words α) (a : Option α) :
    zerosOf (pure (keyword key a) :: gs) = zerosOf gs := by
  cases a with
  | none => rfl
  | some a =>
    have ha : a ∈ (Keyword.all : List α) :=
      List.mem_of_find?_eq_some (LawfulKeyword.ofWord?_word a)
    have hw : Keyword.word a ≠ "" := fun he => h (he ▸ List.mem_map_of_mem ha)
    have hzero : memberZeros (keyword key (some a)) = [] :=
      Document.memberZeros_full (Document.isFull_text hw) key
    rw [zerosOf_cons, Logged.value_pure, hzero, List.nil_append]

theorem memberZeros_list (ds : List Document) :
    memberZeros (list key ds) = (ds.flatMap Document.zeros).map (key :: ·) := by
  cases ds with
  | nil => rfl
  | cons d ds =>
    have hlist : list key (d :: ds) = [(key, .list (d :: ds))] := rfl
    rw [hlist, Document.memberZeros_one, ← Document.itemZeros_eq]
    exact Document.zerosUnder_filled key _

theorem zerosOf_list (ds : List Document) :
    zerosOf (pure (list key ds) :: gs) =
      (ds.flatMap Document.zeros).map (key :: ·) ++ zerosOf gs := by
  rw [zerosOf_cons, Logged.value_pure, memberZeros_list]

theorem flatMap_zeros {ds : List Document} (h : ∀ d ∈ ds, d.zeros = []) :
    ds.flatMap Document.zeros = [] := List.flatMap_eq_nil_iff.2 h

variable {f : α → Logged Document}

theorem zerosOf_optional (hf : ∀ a, (f a).value.isZero = false) (part : Option α) :
    zerosOf (optional key part f :: gs) =
      (part.elim [] fun a => (f a).value.zeros.map (key :: ·)) ++ zerosOf gs := by
  rw [zerosOf_cons]
  cases part with
  | none => rfl
  | some a =>
    have hone : (optional key (some a) f).value = [(key, (f a).value)] := rfl
    rw [hone, Document.memberZeros_one, hf, Document.zerosUnder_filled]
    rfl

theorem zerosOf_part (hf : ∀ a, (f a).value.IsFull) (part : Option α) :
    zerosOf (optional key part f :: gs) = zerosOf gs := by
  rw [zerosOf_optional fun a => (hf a).whole]
  cases part with
  | none => rfl
  | some a =>
    rw [Option.elim_some, (hf a).below]
    rfl

theorem memberZeros_each (hf : ∀ a, (f a).value.IsFull) (parts : List α) :
    memberZeros (each key parts f).value = [] := by
  unfold each
  rw [Logged.value_bind, Logged.value_mapM, Logged.value_pure, memberZeros_list,
    flatMap_zeros, List.map_nil]
  intro d hd
  obtain ⟨a, -, rfl⟩ := List.mem_map.1 hd
  exact (hf a).below

theorem zerosOf_each (hf : ∀ a, (f a).value.IsFull) (parts : List α) :
    zerosOf (each key parts f :: gs) = zerosOf gs := by
  rw [zerosOf_cons, memberZeros_each hf, List.nil_append]

theorem zerosOf_selected [Lookup α] (a : α) : zerosOf (selected a :: gs) = zerosOf gs := by
  rw [zerosOf_cons, value_selected]
  cases hs : Lookup.selection? a with
  | none => rfl
  | some s =>
    obtain ⟨hv, -, -⟩ := Reference.exists_selection hs
    rw [Option.elim_some, Document.memberZeros_full (Document.isFull_text hv), List.nil_append]

theorem zerosOf_granted {k : Kind} {all : String} {f : Reference k → Logged Document}
    (hf : ∀ r, (f r).value.IsFull) (a : Access k) :
    zerosOf (granted all key a f :: gs) = zerosOf gs := by
  rw [zerosOf_cons]
  unfold granted
  cases a.grant with
  | all => exact List.nil_append _
  | only items =>
    show memberZeros (each key items f).value ++ _ = _
    rw [memberZeros_each hf, List.nil_append]
  | nothing => exact List.nil_append _

end Members

/-! ## the parts of a specification -/

open Members

theorem Reference.isFull {k : Kind} (r : Reference k) : r.toDocument.value.IsFull :=
  isFull_record (zerosOf_selected r)

theorem Resources.isFull (r : Resources) : r.toDocument.value.IsFull := by
  refine isFull_record ?_
  rw [zerosOf_part Reference.isFull, zerosOf_number, zerosOf_number, zerosOf_nil]

theorem Schedule.isFull (s : Schedule) : s.toDocument.value.IsFull := by
  refine isFull_record ?_
  rw [zerosOf_keyword (by decide), zerosOf_number, zerosOf_number, zerosOf_nil]

theorem BackupPolicy.isFull (p : BackupPolicy) : p.toDocument.value.IsFull := by
  refine isFull_record ?_
  rw [zerosOf_number, zerosOf_part Schedule.isFull, zerosOf_nil]

theorem SystemDisk.isFull (d : SystemDisk) : d.toDocument.value.IsFull := by
  refine isFull_record ?_
  rw [zerosOf_text, zerosOf_number, zerosOf_text, zerosOf_part Reference.isFull, zerosOf_text,
    zerosOf_each BackupPolicy.isFull, zerosOf_nil]

theorem Allocation.isFull (a : Allocation) : a.toDocument.value.IsFull := by
  refine isFull_record ?_
  rw [zerosOf_keyword (by decide), zerosOf_part Reference.isFull, zerosOf_part Reference.isFull,
    zerosOf_keyword (by decide), zerosOf_nil]

theorem NetworkInterface.isFull (i : NetworkInterface) : i.toDocument.value.IsFull := by
  refine isFull_record ?_
  rw [zerosOf_part Reference.isFull, zerosOf_part Reference.isFull, zerosOf_part Reference.isFull,
    zerosOf_each Allocation.isFull, zerosOf_nil]

theorem AuthorizedKeys.isFull (k : AuthorizedKeys) : k.toDocument.value.IsFull := by
  refine isFull_record ?_
  rw [zerosOf_granted Reference.isFull, zerosOf_granted Reference.isFull, zerosOf_nil]

/-- the key and the value of an option are written even where they are empty -/
theorem TemplateOption.zeros_toDocument (o : TemplateOption) :
    o.toDocument.zeros = o.blanks.map fun name => [name] := by
  have hunder : ∀ name s, zerosUnder name (Document.text s).isZero (Document.text s).zeros =
      if s = "" then [[name]] else [] := by
    intro name s
    by_cases hs : s = "" <;> simp [zerosUnder, Document.isZero, Document.zeros, hs]
  unfold toDocument blanks
  rw [Document.zeros, Document.memberZeros, Document.memberZeros_one, hunder, hunder]
  split <;> split <;> rfl

theorem DiskTemplate.zeros_toDocument (t : DiskTemplate) :
    t.toDocument.value.zeros =
      (t.options.flatMap TemplateOption.blanks).map fun name => ["options", name] := by
  have hoptions : (t.options.map TemplateOption.toDocument).flatMap Document.zeros =
      (t.options.flatMap TemplateOption.blanks).map fun name => [name] := by
    rw [List.flatMap_map, List.map_flatMap]
    exact congrArg (List.flatMap · t.options) (funext TemplateOption.zeros_toDocument)
  unfold toDocument
  rw [value_record]
  show zerosOf _ = _
  rw [zerosOf_selected, zerosOf_number, zerosOf_list, zerosOf_nil, hoptions, List.append_nil,
    List.map_map]
  rfl

/-- of what is written, only keys and values of template options may be zero -/
theorem Spec.zeros_toDocument (s : Spec) : s.toDocument.value.zeros = s.blankOptions := by
  have htemplate : ∀ t : DiskTemplate, t.toDocument.value.isZero = false := by
    intro t
    unfold DiskTemplate.toDocument
    rw [value_record]
    rfl
  have htags : (s.tags.map Document.text).flatMap Document.zeros = [] :=
    flatMap_zeros fun d hd => by
      obtain ⟨t, -, rfl⟩ := List.mem_map.1 hd
      rfl
  unfold toDocument blankOptions
  rw [value_record]
  show zerosOf _ = _
  rw [zerosOf_part Reference.isFull, zerosOf_part Reference.isFull, zerosOf_part Resources.isFull,
    zerosOf_optional htemplate, zerosOf_each SystemDisk.isFull, zerosOf_each Reference.isFull,
    zerosOf_each NetworkInterface.isFull, zerosOf_text, zerosOf_text, zerosOf_text,
    zerosOf_part Reference.isFull, zerosOf_part AuthorizedKeys.isFull,
    zerosOf_each BackupPolicy.isFull, zerosOf_list, zerosOf_part Reference.isFull, zerosOf_nil,
    htags]
  cases s.diskTemplate with
  | none => rfl
  | some t => simp [DiskTemplate.zeros_toDocument, Function.comp_def]

end MachineSpec
