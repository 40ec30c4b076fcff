import MachineSpec.Json.Printer
import MachineSpec.Proofs.Json.Acceptance

/-!
# JSON documents read back

A document is printed as a spelling of a value that says the same: its texts are texts, its numbers
numerals without a sign, and its records objects with the same members in the same order.  If the
document fits a shape, the value stands for it there, so it is what is read.

* `Document.toJson`        the value of a document
* `textSpelled_write`      a written text
* `valueSpelled_lexemes`   a printed document, by induction on it
* `standsFor_toJson`       what the value stands for
* `encoded_print`, `read_print`   the byte text of a document
-/

namespace MachineSpec

mutual

/-- the value that a document is printed as -/
def Document.toJson : Document → Json.Value
  | .text s => .text s
  | .number n => .number { whole := n.toNat }
  | .flag b => .flag b
  | .list ds => .list (itemsToJson ds)
  | .record ms => .object (membersToJson ms)

def Document.itemsToJson : List Document → List Json.Value
  | [] => []
  | d :: ds => d.toJson :: itemsToJson ds

def Document.membersToJson : List (String × Document) → List (String × Json.Value)
  | [] => []
  | (key, d) :: ms => (key, d.toJson) :: membersToJson ms

end

namespace Json

open Printer Quoted

/-- a character is written as one of its spellings, for it is read from there -/
theorem charSpelled_writeChar (c : Char) : CharSpelled c (writeChar c) := by
  obtain ⟨cs, hs, he⟩ := of_piece_char (piece_writeChar c [])
  rw [List.append_nil, List.append_nil] at he
  rwa [glyphs_injective he]

theorem textSpelled_write (cs : List Char) :
    TextSpelled cs (cs.flatMap writeChar ++ ['"']) := by
  induction cs with
  | nil => exact .close
  | cons c cs ih =>
    rw [List.flatMap_cons, List.append_assoc]
    exact .char (charSpelled_writeChar c) ih

theorem toList_write (s : String) :
    (write s).toList = '"' :: (s.toList.flatMap writeChar ++ ['"']) :=
  String.toList_ofList

/-- the characters of lexemes side by side -/
def joined (ls : List String) : List Char := ls.flatMap String.toList

theorem joined_cons (l : String) (ls : List String) : joined (l :: ls) = l.toList ++ joined ls :=
  rfl

theorem joined_one (l : String) : joined [l] = l.toList := List.flatMap_singleton _ _

theorem joined_append (ls ls' : List String) : joined (ls ++ ls') = joined ls ++ joined ls' :=
  List.flatMap_append

theorem lead_first : Lead true [] := .first blanks_nil

theorem lead_comma : Lead false [','] := .comma blanks_nil blanks_nil

/-- a member as it is printed, behind what stands in front of it -/
theorem membersSpelled_cons {first : Bool} {ls cs ds : List Char} {key : String} {v : Value}
    {vs : List (String × Value)} (lead : Lead first ls) (value : ValueSpelled v cs)
    (rest : MembersSpelled false vs ds) :
    MembersSpelled first ((key, v) :: vs)
      (ls ++ ((write key).toList ++ (":".toList ++ (cs ++ ds)))) := by
  have h := MembersSpelled.member lead (textSpelled_write key.toList) blanks_nil blanks_nil value
    rest
  rw [toList_write]
  simpa using h

theorem valueSpelled_object {cs ds : List Char} {key : String} {v : Value}
    {vs : List (String × Value)} (value : ValueSpelled v cs) (rest : MembersSpelled false vs ds) :
    ValueSpelled (.object ((key, v) :: vs))
      ("\x7b".toList ++ ((write key).toList ++ (":".toList ++ (cs ++ ds)))) :=
  .object (membersSpelled_cons lead_first value rest)

mutual

/-- a document is printed as a spelling of its value -/
theorem valueSpelled_lexemes : (d : Document) → ValueSpelled d.toJson (joined (lexemes d))
  | .text s => by
    rw [Document.toJson, lexemes, joined_one, toList_write]
    exact .text (textSpelled_write s.toList)
  | .number n => by
    rw [Document.toJson, lexemes, joined_one, ← Reader.spelling_whole]
    exact .number _
  | .flag b => by cases b <;> exact .flag _
  | .list [] => .list (.close blanks_nil)
  | .list (d :: ds) => by
    rw [lexemes, joined_cons, joined_append]
    exact .list (.item lead_first (valueSpelled_lexemes d) (itemsSpelled_lexemes ds))
  | .record [] => .object (.close blanks_nil)
  | .record ((key, d) :: ms) => by
    rw [lexemes, joined_cons, joined_cons, joined_cons, joined_append]
    exact valueSpelled_object (valueSpelled_lexemes d) (membersSpelled_lexemes ms)

theorem itemsSpelled_lexemes : (ds : List Document) →
    ItemsSpelled false (Document.itemsToJson ds) (joined (moreItems ds))
  | [] => .close blanks_nil
  | d :: ds => by
    rw [moreItems, joined_cons, joined_append]
    exact .item lead_comma (valueSpelled_lexemes d) (itemsSpelled_lexemes ds)

theorem membersSpelled_lexemes : (ms : List (String × Document)) →
    MembersSpelled false (Document.membersToJson ms) (joined (moreMembers ms))
  | [] => .close blanks_nil
  | (key, d) :: ms => by
    rw [moreMembers, joined_cons, joined_cons, joined_cons, joined_append]
    exact membersSpelled_cons lead_comma (valueSpelled_lexemes d) (membersSpelled_lexemes ms)

end

theorem valueSpelled_print (d : Document) : ValueSpelled d.toJson (print d).toList := by
  unfold print
  rw [String.toList_join]
  exact valueSpelled_lexemes d

/-- a text that is the spelling of a value holds it -/
theorem encoded_spelled {v : Value} {text : String} (h : ValueSpelled v text.toList) :
    v.Encoded (Utf8.encode text) :=
  ⟨[], text.toList, [], blanks_nil, h, blanks_nil, by rw [List.append_nil]; rfl⟩

/-- the byte text of a document holds its value -/
theorem encoded_print (d : Document) : d.toJson.Encoded (Utf8.encode (print d)) :=
  encoded_spelled (valueSpelled_print d)

/-! ## what the value stands for -/

theorem itemsStandFor_toJson {item : Shape} {ds : List Document}
    (h : ∀ d ∈ ds, StandsFor item d.toJson d) :
    ItemsStandFor item (Document.itemsToJson ds) ds := by
  induction ds with
  | nil => exact .nil item
  | cons d ds ih =>
    obtain ⟨hd, hds⟩ := List.forall_mem_cons.1 h
    exact .cons hd (ih hds)

theorem keys_membersToJson (ms : List (String × Document)) :
    (Document.membersToJson ms).map Prod.fst = ms.map (·.1) := by
  induction ms with
  | nil => rfl
  | cons m ms ih => exact congrArg (m.1 :: ·) ih

theorem membersStandFor_toJson {fields : List (String × Shape)} {ms : List (String × Document)}
    (h : ∀ m ∈ ms, ∃ shape, fields.lookup m.1 = some shape ∧ StandsFor shape m.2.toJson m.2) :
    MembersStandFor fields (Document.membersToJson ms) ms := by
  induction ms with
  | nil => exact .nil fields
  | cons m ms ih =>
    obtain ⟨⟨shape, known, hm⟩, hms⟩ := List.forall_mem_cons.1 h
    exact .cons known (.value hm) (ih hms)

/-- the value of a document of a shape stands for the document -/
theorem standsFor_toJson {shape : Shape} {d : Document} (h : shape.Fits d) :
    StandsFor shape d.toJson d := by
  induction h with
  | text s => exact .text s
  | number n =>
    have hn : UInt32.ofNat n.toNat = n := UInt32.ofNat_toNat
    have hstands := StandsFor.number (Nat.le_of_lt_succ n.toNat_lt)
    rwa [hn] at hstands
  | flag b => exact .flag b
  | choice known => exact .word (List.contains_iff_mem.1 known)
  | list _ ih => exact .list (itemsStandFor_toJson ih)
  | record once known _ ih =>
    refine .object (by rwa [keys_membersToJson]) (membersStandFor_toJson fun m hm => ?_)
    obtain ⟨shape, hl⟩ := known m hm
    exact ⟨shape, hl, ih m hm shape hl⟩

/-- a document that fits a shape is read by the reader of the shape -/
theorem shapeReader_print {shape : Shape} {d : Document} (h : shape.Fits d) :
    shapeReader shape (glyphs (print d).toList) = .ok (d, []) := by
  have hread := (Reader.takes_shape shape).complete blanks_nil (valueSpelled_print d)
    (standsFor_toJson h) Digit.ends_nil
  rwa [glyphs_nil, List.nil_append, List.append_nil] at hread

/-- a printed document is read with the shape that it fits -/
theorem read_print {shape : Shape} {d : Document} (h : shape.Fits d) (source : Source) :
    read shape source (Glyph.ofBytes (Utf8.encode (print d))) = .ok d :=
  read_eq_ok.2 ⟨d.toJson, encoded_print d, standsFor_toJson h⟩

end Json

end MachineSpec
