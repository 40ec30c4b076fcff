import MachineSpec.Proofs.Yaml.Acceptance
import MachineSpec.Proofs.Yaml.Characters
import MachineSpec.Proofs.Yaml.Tree

/-!
# YAML documents read back

A document is printed as a text with one outline, which says the same: its texts stand in the style
that they are written in, its numbers and flags and all its keys are plain.  If the document fits a
shape, the outline stands for it there, so it is what is read.  A text without quotes is only
written where it cannot be taken for null, so no member is left out.

* `Document.toYaml`         the outline of a document
* `standsFor_toYaml`        what the outline stands for
* `Holds.outlined`          the outline of a tree that holds a document
* `Outline.Written.unique`  the outline of a byte text
* `exists_contents`         the contents of the text that a document is printed as
* `written_print`, `read_print`   the byte text of a document
-/

namespace MachineSpec

mutual

/-- the outline that a document is printed with -/
def Document.toYaml : Document → Yaml.Outline
  | .text s => .scalar (Yaml.Quoting.styleOf s.toList) s
  | .number n => .scalar .plain (toString n.toNat)
  | .flag b => .scalar .plain (toString b)
  | .list ds => .sequence (itemsToYaml ds)
  | .record ms => .mapping (membersToYaml ms)

def Document.itemsToYaml : List Document → List Yaml.Outline
  | [] => []
  | d :: ds => d.toYaml :: itemsToYaml ds

def Document.membersToYaml : List (String × Document) → List (Yaml.Outline × Yaml.Outline)
  | [] => []
  | (key, d) :: ms => (.scalar .plain key, d.toYaml) :: membersToYaml ms

end

namespace Yaml

open Quoting Printer

/-! ## words -/

theorem unsigned_of_isDigit {cs : List Char} (h : ∀ c ∈ cs, c.isDigit = true) :
    Sense.unsigned cs = cs := by
  unfold Sense.unsigned
  split
  · exact absurd (h '+' List.mem_cons_self) (by decide)
  · exact absurd (h '-' List.mem_cons_self) (by decide)
  · rfl

theorem hasLeadingZero_toString (n : Nat) : Sense.hasLeadingZero (toString n).toList = false := by
  unfold Sense.hasLeadingZero
  rw [unsigned_of_isDigit fun c hc => Text.isDigit_of_mem_toString hc, Text.toList_toString]
  split
  · next c ds heq =>
    have hzero : ∀ d < 10, d.digitChar = '0' → d = 0 := by decide
    obtain ⟨d, es, hd, hchar, hes⟩ := List.map_eq_cons_iff.1 heq
    have hlt : d < 10 := Text.lt_of_mem_decimals (n := n) (by
      rw [hd]
      exact List.mem_cons_self)
    rw [hzero d hlt hchar] at hd
    rw [Text.decimals_zero_front hd] at hes
    cases hes
  · rfl

theorem based?_toString (n : Nat) : Sense.based? (toString n).toList = some n := by
  have hdigit : ∀ c ∈ (toString n).toList, c.isDigit = true := fun c hc =>
    Text.isDigit_of_mem_toString hc
  have hmarked : ∀ {x : Char} {ds : List Char}, (toString n).toList = '0' :: x :: ds →
      x.isDigit = true := fun h => hdigit _ (by
    rw [h]
    exact List.mem_cons_of_mem _ List.mem_cons_self)
  unfold Sense.based?
  split
  · next heq => exact absurd (hmarked heq) (by decide)
  · next heq => exact absurd (hmarked heq) (by decide)
  · next heq => exact absurd (hmarked heq) (by decide)
  · rw [hasLeadingZero_toString, if_neg Bool.false_ne_true, Sense.digits?,
      List.isEmpty_eq_false_iff.2 (number_ne_nil n), if_neg Bool.false_ne_true,
      Text.toList_toString, Text.digitsFrom_decimals]

theorem natural?_toString (n : Nat) : Sense.natural? (toString n).toList = some n := by
  unfold Sense.natural?
  split
  · next heq =>
    have hplus : '+' ∈ (toString n).toList := by
      rw [heq]
      exact List.mem_cons_self
    exact absurd (Text.isDigit_of_mem_toString hplus) (by decide)
  · exact based?_toString n

/-- is this the plain word for nothing, or no word at all -/
def isVoidWord (s : String) : Bool := s = "" || Sense.isNull s

/-- a number is none of the words with something else than digits -/
theorem contains_number {ws : List String} (h : ∀ w ∈ ws, w.toList.all Char.isDigit = false)
    (n : Nat) : ws.contains (toString n) = false := by
  rw [← Bool.not_eq_true, List.contains_iff_mem]
  intro hm
  have hdigit : (toString n).toList.all Char.isDigit = true :=
    List.all_eq_true.2 fun c hc => Text.isDigit_of_mem_toString hc
  cases hdigit.symm.trans (h _ hm)

theorem isVoidWord_number (n : Nat) : isVoidWord (toString n) = false := by
  refine Bool.or_eq_false_iff.2 ⟨decide_eq_false fun h => number_ne_nil n ?_, ?_⟩
  · rw [h]
    rfl
  · exact contains_number (by decide) n

theorem isVoidWord_flag (b : Bool) : isVoidWord (toString b) = false := by
  cases b <;> decide

theorem isAmbiguous_of_isVoidWord {s : String} (h : isVoidWord s = true) :
    Sense.isAmbiguous s = true := by
  have hnull : Sense.ofWord s = .null := if_pos (by
    rw [isVoidWord] at h
    simpa using h)
  unfold Sense.isAmbiguous
  rw [hnull]

theorem isAmbiguous_of_styleOf {s : String} (h : styleOf s.toList = .plain) :
    Sense.isAmbiguous s = false := by
  cases ha : Sense.isAmbiguous s with
  | false => rfl
  | true =>
    unfold styleOf at h
    rw [String.ofList_toList, ha, Bool.not_true, Bool.and_false, if_neg Bool.false_ne_true] at h
    split at h
    · split at h <;> cases h
    · split at h <;> cases h

theorem isVoidWord_of_styleOf {s : String} (h : styleOf s.toList = .plain) :
    isVoidWord s = false := by
  cases hv : isVoidWord s with
  | false => rfl
  | true => cases (isAmbiguous_of_isVoidWord hv).symm.trans (isAmbiguous_of_styleOf h)

/-! ## what the outline stands for -/

/-- an outline that a document is printed with is not null -/
theorem isVoid_toYaml (d : Document) : d.toYaml.isVoid = false := by
  cases d with
  | text s =>
    cases hs : styleOf s.toList with
    | plain => rw [Document.toYaml, hs]; exact isVoidWord_of_styleOf hs
    | _ => rw [Document.toYaml, hs]; rfl
  | number n => exact isVoidWord_number n.toNat
  | flag b => exact isVoidWord_flag b
  | list _ => rfl
  | record _ => rfl

theorem flag?_toString (b : Bool) : Sense.flag? (toString b) = some b := by
  cases b <;> rfl

theorem itemsStandFor_toYaml {item : Shape} {ds : List Document}
    (h : ∀ d ∈ ds, StandsFor item d.toYaml d) :
    ItemsStandFor item (Document.itemsToYaml ds) ds := by
  induction ds with
  | nil => exact .nil item
  | cons d ds ih =>
    obtain ⟨hd, hds⟩ := List.forall_mem_cons.1 h
    exact .cons hd (ih hds)

theorem keysOf_membersToYaml (ms : List (String × Document)) :
    keysOf (Document.membersToYaml ms) = ms.map (·.1) := by
  induction ms with
  | nil => rfl
  | cons m ms ih => exact congrArg (m.1 :: ·) ih

theorem membersStandFor_toYaml {fields : List (String × Shape)} {ms : List (String × Document)}
    (h : ∀ m ∈ ms, ∃ shape, fields.lookup m.1 = some shape ∧ StandsFor shape m.2.toYaml m.2) :
    MembersStandFor fields (Document.membersToYaml ms) ms := by
  induction ms with
  | nil => exact .nil fields
  | cons m ms ih =>
    obtain ⟨⟨shape, known, hm⟩, hms⟩ := List.forall_mem_cons.1 h
    exact .cons .plain known (.value (isVoid_toYaml m.2) hm) (ih hms)

/-- the outline of a document of a shape stands for the document -/
theorem standsFor_toYaml {shape : Shape} {d : Document} (h : shape.Fits d) :
    StandsFor shape d.toYaml d := by
  induction h with
  | text s => exact .text _ s
  | number n =>
    have hn : UInt32.ofNat n.toNat = n := UInt32.ofNat_toNat
    have hstands := StandsFor.number (natural?_toString n.toNat) (Nat.le_of_lt_succ n.toNat_lt)
    rwa [hn] at hstands
  | flag b => exact .flag (flag?_toString b)
  | choice known => exact .word _ (List.contains_iff_mem.1 known)
  | list _ ih => exact .list (itemsStandFor_toYaml ih)
  | record once known _ ih =>
    refine .record (by rwa [keysOf_membersToYaml]) (membersStandFor_toYaml fun m hm => ?_)
    obtain ⟨shape, hl⟩ := known m hm
    exact ⟨shape, hl, ih m hm shape hl⟩

/-! ## the outline of a tree -/

mutual

theorem Holds.outlined : ∀ {d : Document} {n : Node}, Holds d n → Outlined n d.toYaml
  | _, _, .text mark s => .scalar mark _ s
  | _, _, .number mark n => .scalar mark .plain (toString n.toNat)
  | _, _, .flag mark b => .scalar mark .plain (toString b)
  | _, _, .list mark items => .sequence mark items.outlined
  | _, _, .record mark members => .mapping mark members.outlined

theorem HoldsItems.outlined : ∀ {ds : List Document} {ns : List Node}, HoldsItems ds ns →
    ItemsOutlined ns (Document.itemsToYaml ds)
  | _, _, .nil => .nil
  | _, _, .cons item rest => .cons item.outlined rest.outlined

theorem HoldsMembers.outlined : ∀ {ms : List (String × Document)} {ns : List (Node × Node)},
    HoldsMembers ms ns → MembersOutlined ns (Document.membersToYaml ms)
  | _, _, .nil => .nil
  | _, _, .cons mark member rest => .cons (.scalar mark .plain _) member.outlined rest.outlined

end

mutual

/-- a tree has one outline at most -/
theorem Outlined.unique : ∀ {n : Node} {o o' : Outline}, Outlined n o → Outlined n o' → o = o'
  | _, _, _, .scalar _ _ _, h => by cases h; rfl
  | _, _, _, .sequence _ items, h => by
    cases h with
    | sequence _ items' => rw [items.unique items']
  | _, _, _, .mapping _ members, h => by
    cases h with
    | mapping _ members' => rw [members.unique members']

theorem ItemsOutlined.unique : ∀ {ns : List Node} {os os' : List Outline}, ItemsOutlined ns os →
    ItemsOutlined ns os' → os = os'
  | _, _, _, .nil, h => by cases h; rfl
  | _, _, _, .cons item rest, h => by
    cases h with
    | cons item' rest' => rw [item.unique item', rest.unique rest']

theorem MembersOutlined.unique : ∀ {ns : List (Node × Node)} {ms ms' : List (Outline × Outline)},
    MembersOutlined ns ms → MembersOutlined ns ms' → ms = ms'
  | _, _, _, .nil, h => by cases h; rfl
  | _, _, _, .cons key value rest, h => by
    cases h with
    | cons key' value' rest' => rw [key.unique key', value.unique value', rest.unique rest']

end

/-- a byte text has one outline at most -/
theorem Outline.Written.unique {o o' : Outline} {bytes : Bytes} (h : o.Written bytes)
    (h' : o'.Written bytes) : o = o' := by
  obtain ⟨root, hroot, ho⟩ := h
  obtain ⟨root', hroot', ho'⟩ := h'
  cases hroot.symm.trans hroot'
  exact ho.unique ho'

/-! ## printed texts -/

mutual

/-- are all documents of a shape written with every item and every member on lines of its own -/
def linesFit : Shape → Bool
  | .list (.list _) => false
  | .list item => linesFit item
  | .record _ fields => fieldLinesFit fields
  | _ => true

def fieldLinesFit : List (String × Shape) → Bool
  | [] => true
  | (key, shape) :: fields =>
    key.toList.all isWordChar && !key.toList.isEmpty && decide (key.toList.length ≤ 1024) &&
      linesFit shape && fieldLinesFit fields

end

theorem fieldLinesFit_lookup {fields : List (String × Shape)} (h : fieldLinesFit fields = true)
    {key : String} {shape : Shape} (hl : fields.lookup key = some shape) :
    Place.IsKey key.toList ∧ linesFit shape = true := by
  induction fields with
  | nil => cases hl
  | cons field fields ih =>
    rw [fieldLinesFit] at h
    simp only [Bool.and_eq_true, Bool.not_eq_true', decide_eq_true_eq] at h
    obtain ⟨⟨⟨⟨hw, hne⟩, hs⟩, hfit⟩, hrest⟩ := h
    rw [List.lookup_cons] at hl
    by_cases hk : key = field.1
    · rw [beq_iff_eq.2 hk] at hl
      cases hl
      rw [hk]
      exact ⟨⟨List.all_eq_true.1 hw, List.isEmpty_eq_false_iff.1 hne, hs⟩, hfit⟩
    · rw [beq_false_of_ne hk] at hl
      exact ih hrest hl

theorem isRow_of_fits {shape : Shape} {d : Document} (h : shape.Fits d)
    (hs : linesFit (.list shape) = true) : isRow d = false ∧ linesFit shape = true := by
  cases h with
  | list _ =>
    rw [linesFit] at hs
    cases hs
  | _ =>
    rw [linesFit] at hs
    · exact ⟨rfl, hs⟩
    · simp

/-- a document of such a shape is one of lines -/
theorem InLines.of_fits {shape : Shape} {d : Document} (h : shape.Fits d)
    (hs : linesFit shape = true) : InLines d := by
  induction h with
  | text s => exact .text s
  | number n => exact .number n
  | flag b => exact .flag b
  | choice _ => exact .text _
  | list items ih =>
    exact .list (fun d hd => (isRow_of_fits (items d hd) hs).1)
      fun d hd => ih d hd (isRow_of_fits (items d hd) hs).2
  | record _ known _ ih =>
    rw [linesFit] at hs
    refine .record (fun m hm => ?_) fun m hm => ?_
    · obtain ⟨shape, hl⟩ := known m hm
      exact (fieldLinesFit_lookup hs hl).1
    · obtain ⟨shape, hl⟩ := known m hm
      exact ih m hm shape hl (fieldLinesFit_lookup hs hl).2

section print
variable {title : String} {fields : List (String × Shape)} {d : Document}

/-- the contents of the text that a record of a shape is written as -/
theorem exists_contents (hs : linesFit (.record title fields) = true)
    (h : (Shape.record title fields).Fits d) :
    ∃ root, Contents.ofBytes (Utf8.encode (print d)) = ⟨some root, none, false⟩ ∧ Holds d root := by
  have hl := InLines.of_fits h hs
  obtain ⟨ms, rfl⟩ : ∃ ms, d = .record ms := by
    cases h
    exact ⟨_, rfl⟩
  obtain ⟨ts, hts, hkinds⟩ := hl.tokens_eq
  obtain ⟨root, hroot, hholds⟩ := hl.ofTokens_eq hkinds
  refine ⟨root, ?_, hholds⟩
  unfold Contents.ofBytes
  rw [hl.ofBytes_eq, hts]
  exact hroot

/-- the byte text of a record of a shape has the outline of the record -/
theorem written_print (hs : linesFit (.record title fields) = true)
    (h : (Shape.record title fields).Fits d) : d.toYaml.Written (Utf8.encode (print d)) := by
  obtain ⟨root, hroot, hholds⟩ := exists_contents hs h
  exact ⟨root, hroot, hholds.outlined⟩

/-- the text that a record of a shape is written as is read as the record -/
theorem read_print (hs : linesFit (.record title fields) = true)
    (h : (Shape.record title fields).Fits d) :
    read (.record title fields) (Utf8.encode (print d)) = .ok d :=
  (read_written (written_print hs h)).2 (standsFor_toYaml h)

end print

theorem linesFit_spec : linesFit Spec.shape = true := by decide +kernel

end Yaml

end MachineSpec
