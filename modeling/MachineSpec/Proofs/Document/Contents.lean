import MachineSpec.Document.Content
import MachineSpec.Proofs.Document.Fits
import MachineSpec.Spec.Canonical

/-!
# Written documents read back

What the members of a written record are read as.  A member that is not written reads as the zero of
its sort, which is what it was left out for, and a reference reads as the text of its selection.

* `Members.lookup_text`, `lookup_number`, ...   what stands under a key of what is written
* `Document.textOf`, `numberOf`, ...            what is read of what stands under a key
* `Reference.ofDocument_append`                 a reference beside other members
* `Spec.ofDocument_toDocument`                  a specification read from its document
-/

namespace MachineSpec

namespace Members

/-! ## what stands under a key -/

theorem lookup_one (key name : String) (d : Document) :
    ([(name, d)] : Members).lookup key = if key = name then some d else none := by
  rw [List.lookup_cons]
  by_cases h : key = name
  · rw [h, beq_self_eq_true, if_pos rfl]
  · rw [beq_false_of_ne h, if_neg h]
    rfl

@[simp]
theorem lookup_text (key name s : String) :
    (text name s).lookup key =
      if key = name then if s = "" then none else some (.text s) else none := by
  unfold text
  split
  · rw [ite_self]
    rfl
  · exact lookup_one key name _

@[simp]
theorem lookup_number (key name : String) (n : UInt32) :
    (number name n).lookup key =
      if key = name then if n = 0 then none else some (.number n) else none := by
  unfold number
  split
  · rw [ite_self]
    rfl
  · exact lookup_one key name _

@[simp]
theorem lookup_list (key name : String) (ds : List Document) :
    (list name ds).lookup key =
      if key = name then if ds = [] then none else some (.list ds) else none := by
  cases ds with
  | nil =>
    rw [if_pos rfl, ite_self]
    rfl
  | cons d ds =>
    rw [if_neg (List.cons_ne_nil d ds)]
    exact lookup_one key name _

variable {α : Type}

@[simp]
theorem lookup_keyword [Keyword α] (key name : String) (a : Option α) :
    (keyword name a).lookup key =
      if key = name then a.map fun a => .text (Keyword.word a) else none := by
  cases a with
  | none =>
    rw [Option.map_none, ite_self]
    rfl
  | some a => exact lookup_one key name _

@[simp]
theorem lookup_optional (key name : String) (part : Option α) (f : α → Logged Document) :
    (optional name part f).value.lookup key =
      if key = name then part.map fun a => (f a).value else none := by
  cases part with
  | none =>
    rw [Option.map_none, ite_self]
    rfl
  | some a => exact lookup_one key name _

@[simp]
theorem lookup_each (key name : String) (parts : List α) (f : α → Logged Document) :
    (each name parts f).value.lookup key =
      if key = name then
        if parts = [] then none else some (.list (parts.map fun a => (f a).value))
      else none := by
  unfold each
  rw [Logged.value_bind, Logged.value_mapM]
  show List.lookup key (list name _) = _
  simp only [lookup_list, List.map_eq_nil_iff]

theorem lookup_selected [Lookup α] (a : α) {key : String}
    (h : key ∉ (Lookup.kind α).selectors) : (selected a).value.lookup key = none := by
  rw [value_selected]
  cases hs : Lookup.selection? a with
  | none => rfl
  | some s =>
    obtain ⟨-, -, i, hi⟩ := Reference.exists_selection hs
    have hne : key ≠ s.selector := fun he => by
      rw [he, ← Reference.get_of_index? hi] at h
      exact h (List.get_mem _ _)
    show List.lookup key [(s.selector, Document.text s.value)] = none
    rw [lookup_one, if_neg hne]

/-- a flag that is set is written without its list, and a list without its flag -/
@[simp]
theorem lookup_granted {k : Kind} (key : String) {all only : String} (hne : all ≠ only)
    (a : Access k) (f : Reference k → Logged Document) :
    (granted all only a f).value.lookup key =
      if key = all then if a.all then some (.flag true) else none
      else if key = only then
        if a.all then none
        else if a.items = [] then none else some (.list (a.items.map fun r => (f r).value))
      else none := by
  obtain ⟨flag, items⟩ := a
  cases flag with
  | true =>
    show List.lookup key [(all, Document.flag true)] = _
    rw [lookup_one]
    simp only [if_true, ite_self]
  | false =>
    cases items with
    | nil =>
      show List.lookup key [] = _
      simp only [if_true, ite_self, Bool.false_eq_true, if_false]
      rfl
    | cons r rs =>
      show List.lookup key (each only (r :: rs) f).value = _
      rw [lookup_each]
      by_cases hk : key = all
      · rw [if_neg (hk ▸ hne), if_pos hk]
        rfl
      · rw [if_neg hk]
        rfl

end Members

/-! ## what is read of it -/

namespace Document
variable {ms : List (String × Document)} {key : String}

/-- the text of what stands under a key -/
def textOf : Option Document → String
  | some (.text s) => s
  | _ => ""

def numberOf : Option Document → UInt32
  | some (.number n) => n
  | _ => 0

def flagOf : Option Document → Bool
  | some (.flag b) => b
  | _ => false

def listOf : Option Document → List Document
  | some (.list ds) => ds
  | _ => []

@[simp] theorem textAt_record : (record ms).textAt key = textOf (ms.lookup key) := rfl

@[simp] theorem numberAt_record : (record ms).numberAt key = numberOf (ms.lookup key) := rfl

@[simp] theorem flagAt_record : (record ms).flagAt key = flagOf (ms.lookup key) := rfl

@[simp] theorem listAt_record : (record ms).listAt key = listOf (ms.lookup key) := rfl

@[simp]
theorem partAt_record {α : Type} (f : Document → α) :
    (record ms).partAt key f = (ms.lookup key).map f := rfl

@[simp]
theorem partsAt_record {α : Type} (f : Document → α) :
    (record ms).partsAt key f = (listOf (ms.lookup key)).map f := rfl

@[simp]
theorem keywordAt_record {α : Type} [Keyword α] :
    (record ms).keywordAt key =
      (ms.lookup key).bind fun d => (Keyword.ofWord? d.asText : Option α) :=
  rfl

/-- an empty text is left out, and left out means empty -/
@[simp]
theorem textOf_unless (s : String) : textOf (if s = "" then none else some (.text s)) = s := by
  split
  · next h => exact h.symm
  · rfl

@[simp]
theorem numberOf_unless (n : UInt32) :
    numberOf (if n = 0 then none else some (.number n)) = n := by
  split
  · next h => exact h.symm
  · rfl

@[simp]
theorem listOf_unless {α : Type} (as : List α) (f : α → Document) :
    listOf (if as = [] then none else some (.list (as.map f))) = as.map f := by
  split
  · next h => rw [h]; rfl
  · rfl

@[simp]
theorem flagOf_if (b : Bool) : flagOf (if b then some (.flag true) else none) = b := by
  cases b <;> rfl

@[simp]
theorem map_listOf_if {α : Type} (b : Bool) (d : Option Document) (f : Document → α) :
    (listOf (if b then none else d)).map f = if b then [] else (listOf d).map f := by
  cases b <;> rfl

@[simp] theorem asText_text (s : String) : (text s).asText = s := rfl

@[simp]
theorem ofWord_word {α : Type} [Keyword α] [LawfulKeyword α] (a : Option α) :
    ((a.map fun a => text (Keyword.word a)).bind fun d =>
      (Keyword.ofWord? d.asText : Option α)) = a := by
  cases a with
  | none => rfl
  | some a => exact LawfulKeyword.ofWord?_word a

end Document

open Members

/-! ## references -/

namespace Reference
variable {k : Kind}

theorem get_ofDocument (d : Document) (i : Fin k.selectors.length) :
    (ofDocument d : Reference k).values.get i = d.textAt (k.selectors.get i) :=
  Vector.getElem_ofFn _

/-- of a reference beside other members, its selection is read -/
theorem ofDocument_append {α : Type} [Lookup α] (a : α) (ms : Members)
    (h : ∀ name ∈ (Lookup.kind α).selectors, ms.lookup name = none) :
    ofDocument (.record ((selected a).value ++ ms)) = (Lookup.reference a).canonical := by
  refine ext_get fun i => ?_
  rw [get_ofDocument, Document.textAt_record, List.lookup_append, h _ (List.get_mem _ i),
    Option.or_none, value_selected]
  cases hs : Lookup.selection? a with
  | none =>
    rw [canonical_of_none hs, get_empty]
    rfl
  | some s =>
    obtain ⟨-, -, j, hj⟩ := exists_selection hs
    rw [canonical_eq_put hs hj, get_put, get_empty, Option.elim_some, lookup_one]
    by_cases hji : j = i
    · subst hji
      rw [if_pos rfl, if_pos (get_of_index? hj)]
      rfl
    · have hne : (Lookup.kind α).selectors.get i ≠ s.selector := fun he => by
        rw [← he, index?_get] at hj
        cases hj
        exact hji rfl
      rw [if_neg hji, if_neg hne]
      rfl

@[simp]
theorem ofDocument_toDocument (r : Reference k) :
    ofDocument r.toDocument.value = r.canonical := by
  have h := ofDocument_append r [] fun _ _ => rfl
  unfold toDocument
  rw [value_record]
  exact h

end Reference

/-! ## the parts of a specification -/

@[simp]
theorem Resources.ofDocument_toDocument (r : Resources) :
    ofDocument r.toDocument.value = r.canonical := by
  unfold toDocument ofDocument
  rw [value_record]
  simp [List.lookup_append, Function.comp_def]
  rfl

@[simp]
theorem TemplateOption.ofDocument_toDocument (o : TemplateOption) : ofDocument o.toDocument = o :=
  rfl

@[simp]
theorem DiskTemplate.ofDocument_toDocument (t : DiskTemplate) :
    ofDocument t.toDocument.value = t.canonical := by
  have hs : ∀ key ∈ ["version", "options"], (selected t).value.lookup key = none := fun key hk =>
    lookup_selected t ((by decide : ∀ key ∈ ["version", "options"],
      key ∉ Kind.diskTemplate.selectors) key hk)
  have hr := Reference.ofDocument_append t
    (number "version" t.version ++ list "options" (t.options.map TemplateOption.toDocument))
    fun name h => by
      have hn : ∀ name ∈ Kind.diskTemplate.selectors, name ≠ "version" ∧ name ≠ "options" := by
        decide
      simp [List.lookup_append, hn name h]
  unfold toDocument ofDocument
  rw [value_record]
  simp [List.lookup_append, Function.comp_def, hr, hs]
  rfl

@[simp]
theorem Schedule.ofDocument_toDocument (s : Schedule) : ofDocument s.toDocument.value = s := by
  unfold toDocument ofDocument
  rw [value_record]
  simp [List.lookup_append]

@[simp]
theorem BackupPolicy.ofDocument_toDocument (p : BackupPolicy) :
    ofDocument p.toDocument.value = p := by
  unfold toDocument ofDocument
  rw [value_record]
  simp [List.lookup_append, Function.comp_def]

@[simp]
theorem SystemDisk.ofDocument_toDocument (d : SystemDisk) :
    ofDocument d.toDocument.value = d.canonical := by
  unfold toDocument ofDocument
  rw [value_record]
  simp [List.lookup_append, Function.comp_def]
  rfl

@[simp]
theorem Allocation.ofDocument_toDocument (a : Allocation) :
    ofDocument a.toDocument.value = a.canonical := by
  unfold toDocument ofDocument
  rw [value_record]
  simp [List.lookup_append, Function.comp_def]
  rfl

@[simp]
theorem NetworkInterface.ofDocument_toDocument (i : NetworkInterface) :
    ofDocument i.toDocument.value = i.canonical := by
  unfold toDocument ofDocument
  rw [value_record]
  simp [List.lookup_append, Function.comp_def]
  rfl

theorem Access.canonical_eq {k : Kind} (a : Access k) :
    a.canonical = ⟨a.all, if a.all then [] else a.items.map Reference.canonical⟩ := by
  unfold canonical
  cases a.all <;> rfl

@[simp]
theorem AuthorizedKeys.ofDocument_toDocument (k : AuthorizedKeys) :
    ofDocument k.toDocument.value = k.canonical := by
  unfold toDocument ofDocument canonical
  rw [value_record, Access.canonical_eq, Access.canonical_eq]
  simp [List.lookup_append, Function.comp_def]

/-- a specification read from its document is what is canonical of it -/
theorem Spec.ofDocument_toDocument (s : Spec) : ofDocument s.toDocument.value = s.canonical := by
  unfold toDocument ofDocument
  rw [value_record]
  simp [List.lookup_append, Function.comp_def]
  rfl

end MachineSpec
