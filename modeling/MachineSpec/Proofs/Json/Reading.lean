import MachineSpec.Json.Reading
import MachineSpec.Proofs.Document.Contents
import MachineSpec.Proofs.Json.Acceptance
import Mathlib.Data.List.Forall2

/-!
# What accepted JSON is read as

A value of a shape stands for a document, from which a specification is taken.  That is the long way
round: it comes to what is read from the value itself, field by field.  The fields of a record match
the members of its document, what a value of each sort is read as is what is taken from its
document, and the records follow from the inside out.

* `StandsFor.fields_match`   a field has a value just where the document has a member
* `Agree`                    what values are read as is what is taken from their documents
* `Agree.field`              a field with its default
* `Matches.text`, `Matches.part`, `Matches.items`, ...   a field of each sort
* `Resources.agree`, `SystemDisk.agree`, ...             the parts of a specification
* `Spec.agree`               a specification that is read from a value is the one of its document
* `Spec.decode_json_iff`     which bytes are accepted, and what they are read as
-/

namespace MachineSpec

namespace Json

open Reading

/-! ## fields and members -/

section lookup
variable {β : Type} {d? : Option β} {ds : List (String × β)} {key name : String}

theorem lookup_entry_self : ((d?.map (key, ·)).toList ++ ds).lookup key = d?.or (ds.lookup key) := by
  cases d? with
  | none => rfl
  | some d => exact List.lookup_cons_self

theorem lookup_entry_of_ne (h : name ≠ key) :
    ((d?.map (key, ·)).toList ++ ds).lookup name = ds.lookup name := by
  cases d? with
  | none => rfl
  | some d =>
    show ((key, d) :: ds).lookup name = _
    rw [List.lookup_cons, beq_false_of_ne h]

end lookup

section fields
variable {fields : List (String × Shape)} {shape : Shape} {key : String} {v : Value}
  {d? : Option Document} {ds : List (String × Document)}

theorem present?_of_standsFor {d : Document} (h : StandsFor shape v d) : v.present? = some v := by
  cases h <;> rfl

theorem FieldStandsFor.rel (h : FieldStandsFor shape v d?) :
    Option.Rel (StandsFor shape) v.present? d? := by
  cases h with
  | null => exact .none
  | value value =>
    rw [present?_of_standsFor value]
    exact .some value

theorem MembersStandFor.lookup_eq_none {ms : List (String × Value)}
    (h : MembersStandFor fields ms ds) (hk : key ∉ ms.map Prod.fst) : ds.lookup key = none := by
  induction ms generalizing ds with
  | nil =>
    cases h
    rfl
  | cons m ms ih =>
    cases h with
    | cons known field rest =>
      obtain ⟨hne, hk⟩ := List.ne_and_not_mem_of_not_mem_cons hk
      rw [lookup_entry_of_ne hne]
      exact ih rest hk

/-- a member of an object is under its key in the document, unless it is null -/
theorem MembersStandFor.rel {ms : List (String × Value)} (h : MembersStandFor fields ms ds)
    (hn : (ms.map Prod.fst).Nodup) (hs : fields.lookup key = some shape) :
    Option.Rel (StandsFor shape) ((ms.lookup key).bind Value.present?) (ds.lookup key) := by
  induction ms generalizing ds with
  | nil =>
    cases h
    exact .none
  | cons m ms ih =>
    cases h with
    | @cons _ name _ v d? _ ds known field rest =>
      obtain ⟨hnm, hn⟩ := List.nodup_cons.1 hn
      by_cases hk : key = name
      · subst hk
        cases hs.symm.trans known
        rw [List.lookup_cons_self, lookup_entry_self, rest.lookup_eq_none hnm, Option.or_none]
        exact field.rel
      · rw [List.lookup_cons, beq_false_of_ne hk, lookup_entry_of_ne hk]
        exact ih rest hn

theorem FieldsStandFor.lookup_eq_none {vs : List Value} (h : FieldsStandFor fields vs ds)
    (hk : key ∉ fields.map Prod.fst) : ds.lookup key = none := by
  induction vs generalizing fields ds with
  | nil =>
    cases h
    rfl
  | cons v vs ih =>
    cases h with
    | cons field rest =>
      obtain ⟨hne, hk⟩ := List.ne_and_not_mem_of_not_mem_cons hk
      rw [lookup_entry_of_ne hne]
      exact ih rest hk

/-- a value in a list is in the document under the key of the field in its place -/
theorem FieldsStandFor.rel {vs : List Value} (h : FieldsStandFor fields vs ds)
    (hn : (fields.map Prod.fst).Nodup) {place : Nat} (hs : fields[place]? = some (key, shape)) :
    Option.Rel (StandsFor shape) (vs[place]?.bind Value.present?) (ds.lookup key) := by
  induction vs generalizing fields ds place with
  | nil =>
    cases h
    exact .none
  | cons v vs ih =>
    cases h with
    | @cons fields name shape' v d? vs ds field rest =>
      obtain ⟨hnm, hn⟩ := List.nodup_cons.1 hn
      cases place with
      | zero =>
        cases hs
        rw [lookup_entry_self, rest.lookup_eq_none hnm, Option.or_none]
        exact field.rel
      | succ place =>
        rw [List.getElem?_cons_succ] at hs
        have hmem : key ∈ fields.map Prod.fst := List.mem_map_of_mem (List.mem_of_getElem? hs)
        have hne : key ≠ name := fun he => hnm (he ▸ hmem)
        rw [lookup_entry_of_ne hne]
        exact ih rest hn hs

end fields

section matching
variable {fields : List (String × Shape)} {v : Value} {d : Document}

/-- the fields of a value match the members of a document -/
def Matches (fields : List (String × Shape)) (v : Value) (d : Document) : Prop :=
  ∀ ⦃place key shape⦄, fields[place]? = some (key, shape) →
    Option.Rel (StandsFor shape) (v.field? place key) (d.member? key)

/-- a field has a value just where the document has a member, and it stands for it -/
theorem StandsFor.fields_match {title : String} (h : StandsFor (.record title fields) v d)
    (hn : (fields.map Prod.fst).Nodup) : Matches fields v d := by
  intro place key shape hs
  cases h with
  | object once members =>
    exact members.rel once (lookup_of_mem hn (List.mem_of_getElem? hs))
  | inOrder values => exact values.rel hn hs

end matching

/-! ## what is taken from a document -/

section agree
variable {α : Type} {shape : Shape} {take : Document → α} {reads : α → Value → Prop}

/-- what values of a shape are read as is what is taken from the documents that they stand for -/
def Agree (shape : Shape) (take : Document → α) (reads : α → Value → Prop) : Prop :=
  ∀ ⦃v d⦄, StandsFor shape v d → ∀ a, reads a v ↔ a = take d

/-- a field is what is taken from its member, or has its default -/
theorem Agree.field (h : Agree shape take reads) {v? : Option Value} {d? : Option Document}
    (hr : Option.Rel (StandsFor shape) v? d?) (default a : α) :
    Field default reads a v? ↔ a = (d?.map take).getD default := by
  cases hr with
  | none =>
    constructor
    · rintro ⟨⟩
      rfl
    · rintro rfl
      exact .missing
  | some value =>
    constructor
    · intro hf
      cases hf with
      | present hv => exact (h value a).1 hv
    · intro ha
      exact .present ((h value a).2 ha)

theorem agree_text : Agree .text Document.asText Text := by
  intro v d h s
  cases h
  constructor
  · rintro ⟨⟩
    rfl
  · rintro rfl
    exact .text _

theorem agree_number : Agree .number (fun d => Document.numberOf (some d)) Reading.Number := by
  intro v d h n
  cases h with
  | @number m fits =>
    have hm : (UInt32.ofNat m).toNat = m := UInt32.toNat_ofNat_of_lt' (Nat.lt_succ_of_le fits)
    constructor
    · rintro ⟨⟩
      exact UInt32.ofNat_toNat.symm
    · rintro rfl
      have hn := Reading.Number.number (UInt32.ofNat m)
      rwa [hm] at hn

theorem agree_flag : Agree .flag (fun d => Document.flagOf (some d)) Flag := by
  intro v d h b
  cases h
  constructor
  · rintro ⟨⟩
    rfl
  · rintro rfl
    exact .flag _

theorem agree_word [Keyword α] [LawfulKeyword α] :
    Agree (Keyword.shape α) (fun d => Keyword.ofWord? d.asText) (Part (Word (α := α))) := by
  intro v d h a
  have hword (b : α) : Keyword.ofWord? (Keyword.word b) = some b := LawfulKeyword.ofWord?_word b
  unfold Keyword.shape at h
  cases h with
  | word known | key known =>
    obtain ⟨b, -, rfl⟩ := List.mem_map.1 known
    show Part Word a _ ↔ a = Keyword.ofWord? (Keyword.word b)
    rw [hword]
    constructor
    · intro hpart
      -- a word stands for one choice only
      generalize hw : Keyword.word b = w at hpart
      cases hpart with
      | part value =>
        cases value
        rw [← hword, ← hw, hword]
    · rintro rfl
      exact .part (by constructor)

theorem Agree.part (h : Agree shape take reads) :
    Agree shape (fun d => some (take d)) (Part reads) := by
  intro v d hd a
  constructor
  · rintro ⟨value⟩
    exact congrArg some ((h hd _).1 value)
  · rintro rfl
    exact .part ((h hd _).2 rfl)

theorem Agree.forall₂_iff (h : Agree shape take reads) {vs : List Value} {ds : List Document}
    (items : ItemsStandFor shape vs ds) {as : List α} :
    List.Forall₂ reads as vs ↔ as = ds.map take := by
  induction vs generalizing ds as with
  | nil =>
    cases items
    exact List.forall₂_nil_right_iff
  | cons v vs ih =>
    cases items with
    | @cons _ _ d _ ds value rest =>
      rw [List.forall₂_cons_right_iff, List.map_cons]
      constructor
      · rintro ⟨a, as, ha, has, rfl⟩
        rw [(h value a).1 ha, (ih rest).1 has]
      · intro has
        exact ⟨take d, ds.map take, (h value _).2 rfl, (ih rest).2 rfl, has⟩

theorem Agree.items (h : Agree shape take reads) :
    Agree (.list shape) (fun d => (Document.listOf (some d)).map take) (Items reads) := by
  intro v d hd as
  cases hd with
  | list items =>
    constructor
    · rintro ⟨hitems⟩
      exact (h.forall₂_iff items).1 hitems
    · intro has
      exact .list ((h.forall₂_iff items).2 has)

end agree

/-! ## fields of each sort -/

namespace Matches
variable {α : Type} {fields : List (String × Shape)} {shape : Shape} {v : Value} {d : Document}
  {key : String} {take : Document → α} {reads : α → Value → Prop} (hm : Matches fields v d)
  (place : Nat)
include hm

theorem text (hs : fields[place]? = some (key, .text)) (s : String) :
    Field "" Text s (v.field? place key) ↔ s = d.textAt key := by
  rw [agree_text.field (hm hs)]
  show _ ↔ s = Document.textOf (d.member? key)
  cases d.member? key with
  | none => rfl
  | some m => cases m <;> rfl

theorem number (hs : fields[place]? = some (key, .number)) (n : UInt32) :
    Field 0 Reading.Number n (v.field? place key) ↔ n = d.numberAt key := by
  rw [agree_number.field (hm hs)]
  show _ ↔ n = Document.numberOf (d.member? key)
  cases d.member? key <;> rfl

theorem flag (hs : fields[place]? = some (key, .flag)) (b : Bool) :
    Field false Flag b (v.field? place key) ↔ b = d.flagAt key := by
  rw [agree_flag.field (hm hs)]
  show _ ↔ b = Document.flagOf (d.member? key)
  cases d.member? key <;> rfl

theorem word [Keyword α] [LawfulKeyword α] (hs : fields[place]? = some (key, Keyword.shape α))
    (a : Option α) : Field none (Part Word) a (v.field? place key) ↔ a = d.keywordAt key := by
  rw [agree_word.field (hm hs)]
  show _ ↔ a = (d.member? key).bind fun m => Keyword.ofWord? m.asText
  cases d.member? key <;> rfl

theorem part (h : Agree shape take reads) (hs : fields[place]? = some (key, shape))
    (a : Option α) : Field none (Part reads) a (v.field? place key) ↔ a = d.partAt key take := by
  rw [h.part.field (hm hs)]
  show _ ↔ a = (d.member? key).map take
  cases d.member? key <;> rfl

theorem items (h : Agree shape take reads) (hs : fields[place]? = some (key, .list shape))
    (as : List α) : Field [] (Items reads) as (v.field? place key) ↔ as = d.partsAt key take := by
  rw [h.items.field (hm hs)]
  show _ ↔ as = (Document.listOf (d.member? key)).map take
  cases d.member? key <;> rfl

end Matches

end Json

open Json (Agree Matches)

/-! ## the parts of a specification -/

attribute [ext] Resources TemplateOption DiskTemplate Schedule BackupPolicy SystemDisk Allocation
  NetworkInterface Spec

/-- a reference is read from the fields of its selectors, whatever stands behind them -/
theorem Reference.isReadingOf_iff {k : Kind} {fields : List (String × Shape)} {v : Json.Value}
    {d : Document} (hm : Matches (k.selectors.map (·, .text) ++ fields) v d) (r : Reference k) :
    r.IsReadingOf v ↔ r = ofDocument d := by
  have hs (i : Fin k.selectors.length) :
      (k.selectors.map (·, Shape.text) ++ fields)[i.val]? = some (k.selectors.get i, .text) := by
    rw [List.getElem?_append_left (by rw [List.length_map]; exact i.isLt), List.getElem?_map,
      List.getElem?_eq_getElem i.isLt]
    rfl
  constructor
  · intro h
    refine ext_get fun i => ?_
    rw [get_ofDocument]
    exact (hm.text i (hs i) _).1 (h i)
  · rintro rfl i
    exact (hm.text i (hs i) _).2 (get_ofDocument d i)

theorem Reference.agree (k : Kind) : Agree k.shape (ofDocument (k := k)) IsReadingOf := by
  intro v d h r
  have hm := Json.StandsFor.fields_match h k.nodup_fields
  rw [← List.append_nil (k.selectors.map _)] at hm
  exact isReadingOf_iff hm r

theorem Resources.agree : Agree shape ofDocument IsReadingOf := by
  intro v d h r
  have hm := h.fields_match (by decide)
  rw [isReadingOf_iff, hm.part 0 (Reference.agree _) rfl, hm.number 1 rfl, hm.number 2 rfl]
  exact (Resources.ext_iff : r = ofDocument d ↔ _).symm

theorem TemplateOption.agree : Agree shape ofDocument IsReadingOf := by
  intro v d h o
  have hm := h.fields_match (by decide)
  rw [isReadingOf_iff, hm.text 0 rfl, hm.text 1 rfl]
  exact (TemplateOption.ext_iff : o = ofDocument d ↔ _).symm

theorem DiskTemplate.agree : Agree shape ofDocument IsReadingOf := by
  intro v d h t
  have hm := h.fields_match (by decide)
  rw [isReadingOf_iff, Reference.isReadingOf_iff hm, hm.number 2 rfl,
    hm.items 3 TemplateOption.agree rfl]
  exact (DiskTemplate.ext_iff : t = ofDocument d ↔ _).symm

theorem Schedule.agree : Agree shape ofDocument IsReadingOf := by
  intro v d h s
  have hm := h.fields_match (by decide)
  rw [isReadingOf_iff, hm.word 0 rfl, hm.number 1 rfl, hm.number 2 rfl]
  exact (Schedule.ext_iff : s = ofDocument d ↔ _).symm

theorem BackupPolicy.agree : Agree shape ofDocument IsReadingOf := by
  intro v d h p
  have hm := h.fields_match (by decide)
  rw [isReadingOf_iff, hm.number 0 rfl, hm.part 1 Schedule.agree rfl]
  exact (BackupPolicy.ext_iff : p = ofDocument d ↔ _).symm

theorem SystemDisk.agree : Agree shape ofDocument IsReadingOf := by
  intro v d h s
  have hm := h.fields_match (by decide)
  rw [isReadingOf_iff, hm.text 0 rfl, hm.number 1 rfl, hm.text 2 rfl,
    hm.part 3 (Reference.agree _) rfl, hm.text 4 rfl, hm.items 5 BackupPolicy.agree rfl]
  exact (SystemDisk.ext_iff : s = ofDocument d ↔ _).symm

theorem Allocation.agree : Agree shape ofDocument IsReadingOf := by
  intro v d h a
  have hm := h.fields_match (by decide)
  rw [isReadingOf_iff, hm.word 0 rfl, hm.part 1 (Reference.agree _) rfl,
    hm.part 2 (Reference.agree _) rfl, hm.word 3 rfl]
  exact (Allocation.ext_iff : a = ofDocument d ↔ _).symm

theorem NetworkInterface.agree : Agree shape ofDocument IsReadingOf := by
  intro v d h i
  have hm := h.fields_match (by decide)
  rw [isReadingOf_iff, hm.part 0 (Reference.agree _) rfl, hm.part 1 (Reference.agree _) rfl,
    hm.part 2 (Reference.agree _) rfl, hm.items 3 Allocation.agree rfl]
  exact (NetworkInterface.ext_iff : i = ofDocument d ↔ _).symm

theorem AuthorizedKeys.agree : Agree shape ofDocument IsReadingOf := by
  intro v d h k
  have hm := h.fields_match (by decide)
  obtain ⟨⟨allUsers, users⟩, ⟨allSshKeys, sshKeys⟩⟩ := k
  rw [isReadingOf_iff, hm.flag 0 rfl, hm.items 1 (Reference.agree _) rfl, hm.flag 2 rfl,
    hm.items 3 (Reference.agree _) rfl]
  simp only [ofDocument, mk.injEq, Access.mk.injEq, and_assoc]

namespace Spec

open Logged (outcome)

/-- what a value is read as is the specification of its document -/
theorem agree : Json.Agree shape ofDocument IsReadingOf := by
  intro v d h s
  have hm := h.fields_match (by decide)
  rw [isReadingOf_iff, hm.part 0 (Reference.agree _) rfl, hm.part 1 (Reference.agree _) rfl,
    hm.part 2 Resources.agree rfl, hm.part 3 DiskTemplate.agree rfl,
    hm.items 4 SystemDisk.agree rfl, hm.items 5 (Reference.agree _) rfl,
    hm.items 6 NetworkInterface.agree rfl, hm.text 7 rfl, hm.text 8 rfl, hm.text 9 rfl,
    hm.part 10 (Reference.agree _) rfl, hm.part 11 AuthorizedKeys.agree rfl,
    hm.items 12 BackupPolicy.agree rfl, hm.items 13 Json.agree_text rfl,
    hm.part 14 (Reference.agree _) rfl]
  exact (Spec.ext_iff : s = ofDocument d ↔ _).symm

/-- bytes are accepted as JSON if and only if they are one value of the shape of specifications with
nothing but white space around it, and then they are read as what the value is read as, field by
field -/
theorem decode_json_iff (bytes : Bytes) :
    ((∃ s, outcome (decode .json bytes) = .ok s) ↔
      ∃ v : Json.Value, v.Encoded bytes ∧ v.Conforms shape) ∧
    ∀ s, outcome (decode .json bytes) = .ok s ↔
      ∃ v : Json.Value, v.Encoded bytes ∧ v.Conforms shape ∧ s.IsReadingOf v := by
  constructor
  · constructor
    · rintro ⟨s, hs⟩
      obtain ⟨v, d, hv, hd, -⟩ := (decode_json_eq_ok bytes s).1 hs
      exact ⟨v, hv, d, hd⟩
    · rintro ⟨v, hv, d, hd⟩
      exact ⟨ofDocument d, (decode_json_eq_ok bytes _).2 ⟨v, d, hv, hd, rfl⟩⟩
  · intro s
    rw [decode_json_eq_ok]
    constructor
    · rintro ⟨v, d, hv, hd, hs⟩
      exact ⟨v, hv, ⟨d, hd⟩, (agree hd s).2 hs⟩
    · rintro ⟨v, hv, ⟨d, hd⟩, hs⟩
      exact ⟨v, d, hv, hd, (agree hd s).1 hs⟩

end Spec

end MachineSpec
