import MachineSpec.Proofs.Markup.Inspection
import MachineSpec.Proofs.RoundTrip
import MachineSpec.Proofs.Text.Position

/-!
# Places of malformed markup

A malformed text is reported with an offset, a line and a column.  The place of the fault is what is
left of the text there, so the offset lies in the text and between two characters, and line and
column are its own.

A mark in front of a text is taken off before the offset is measured, but not before line and column
are: there the same offset is looked up in the text with its mark, three bytes before the fault.

* `Element.suffix_of_readFrom`   the place of a fault is an end of the text
* `Spec.ofElement_ne_malformed`  what is wrong in an element is no matter of form
* `Spec.exists_of_ofMarkup_malformed`   the offset and the position of a fault
* `Spec.ofMarkup_marked`         and those in the same text behind a mark
* `Spec.decode_malformed`        both for bytes, and when the mark makes no difference
* `Spec.decode_malformed_displaced`   a fault on the third line that is reported on the first
-/

namespace MachineSpec

open Logged (outcome)

namespace Markup

/-! ## places -/

namespace Element

/-- a fault that is met from a place on has its own place there or behind it -/
theorem suffix_of_readFrom {stack : List Element} {place q : List Char} {cause : Cause}
    (h : readFrom stack place = .error (.malformed cause q)) : q <:+ place := by
  fun_induction readFrom stack place with
  | case1 stack place f ht =>
    cases h
    exact Token.suffix_of_next_malformed ht
  | case2 stack place t rest ht cause' hp =>
    cases h
    exact List.suffix_rfl
  | case3 => cases h
  | case4 stack place t rest ht stack' hp ih =>
    obtain ⟨c, cs, rfl, hr⟩ := Token.exists_of_next ht
    exact ((ih h).trans hr).trans (List.suffix_cons c cs)

theorem unmarked_of_head? {cs : List Char} (h : cs.head? ≠ some byteOrderMark) :
    unmarked cs = cs := by
  cases cs with
  | nil => rfl
  | cons c cs => exact if_neg fun hc => h (congrArg some hc)

theorem unmarked_mark (cs : List Char) : unmarked (byteOrderMark :: cs) = cs := rfl

end Element

/-! ## errors that have no place -/

/-- what is wrong with an element is no matter of form -/
theorem Demand.error?_ne_malformed (e : Element) (d : Demand) {cause : Cause} {offset : Nat}
    {position : Position} : d.error? e ≠ some (.malformed cause offset position) := by
  have hvalue (values : List String) (expected value : String) :
      valueError? e values expected value ≠ some (.malformed cause offset position) := by
    unfold valueError?
    split <;> exact nofun
  have hblank : blankError? e ≠ some (.malformed cause offset position) := by
    unfold blankError?
    split <;> exact nofun
  intro h
  cases d with
  | attributes keys =>
    obtain ⟨a, -, ha⟩ := Option.map_eq_some_iff.1 h
    cases ha
  | childless =>
    obtain ⟨child, -, hc⟩ := Option.map_eq_some_iff.1 h
    cases hc
  | blank => exact hblank h
  | blankBesideChildren =>
    unfold error? at h
    dsimp only at h
    split at h
    · cases h
    · exact hblank h
  | number =>
    unfold error? at h
    dsimp only at h
    split at h <;> cases h
  | keyword words => exact hvalue _ _ _ h
  | attributeKeyword key words =>
    obtain ⟨value, -, hv⟩ := Option.bind_eq_some_iff.1 h
    exact hvalue _ _ _ hv
  | flag key =>
    obtain ⟨value, -, hv⟩ := Option.bind_eq_some_iff.1 h
    exact hvalue _ _ _ hv
  | marker kind =>
    obtain ⟨marker, -, hm⟩ := Option.map_eq_some_iff.1 h
    cases hm

theorem Visit.error?_ne_malformed (v : Visit) {cause : Cause} {offset : Nat}
    {position : Position} : v.error? ≠ some (.malformed cause offset position) := by
  unfold error?
  split
  · exact nofun
  · intro h
    obtain ⟨d, -, hd⟩ := List.exists_of_findSome?_eq_some h
    exact Demand.error?_ne_malformed v.element d hd

end Markup

/-! ## errors that are moved -/

/-- the error of a text in which everything stands `shift` bytes further on -/
def Markup.Error.moved (shift : Nat) (text : List Char) : Markup.Error → Markup.Error
  | .malformed cause offset _ =>
    .malformed cause (offset + shift) (Position.ofOffset text (offset + shift))
  | e => e

def ReadError.moved (shift : Nat) (text : List Char) : ReadError → ReadError
  | .xml e => .xml (e.moved shift text)
  | e => e

open Markup

theorem Markup.Error.moved_of_ne {e : Markup.Error}
    (h : ∀ cause offset position, e ≠ .malformed cause offset position) (shift : Nat)
    (text : List Char) : e.moved shift text = e := by
  cases e with
  | malformed cause offset position => exact absurd rfl (h cause offset position)
  | _ => rfl

/-- a mark in front is not in the offset, but in the text that the offset is looked up in -/
theorem Markup.Error.ofFailure_marked {cs : List Char}
    (h : cs.head? ≠ some Element.byteOrderMark) (f : Failure) :
    Error.ofFailure (Element.byteOrderMark :: cs) f =
      (Error.ofFailure cs f).moved 0 (Element.byteOrderMark :: cs) := by
  cases f with
  | ended => rfl
  | malformed cause place =>
    unfold Error.ofFailure
    dsimp only
    rw [Element.unmarked_mark, Element.unmarked_of_head? h]
    rfl

namespace Spec

/-! ## texts -/

theorem ofElement_ne_malformed (root : Element) (cause : Cause) (offset : Nat)
    (position : Position) :
    outcome (ofElement root) ≠ .error (.malformed cause offset position) := by
  intro h
  rw [← fault?_eq_some, fault?_root] at h
  obtain ⟨v, -, hv⟩ := List.exists_of_findSome?_eq_some h
  exact v.error?_ne_malformed hv

theorem exists_of_ofMarkup_malformed {cs : List Char} {cause : Cause} {offset : Nat}
    {position : Position}
    (h : outcome (ofMarkup cs) = .error (.malformed cause offset position)) :
    ∃ front rest, Element.unmarked cs = front ++ rest ∧
      offset = (Utf8.encodeList front).length ∧ position = Position.ofOffset cs offset := by
  unfold ofMarkup at h
  cases ht : Element.ofText cs with
  | ok root =>
    rw [ht] at h
    exact absurd h (ofElement_ne_malformed root cause offset position)
  | error f =>
    rw [ht] at h
    cases f with
    | ended => cases h
    | malformed cause' place =>
      obtain ⟨front, hf⟩ := Element.suffix_of_readFrom ht
      have hwidth : width (Element.unmarked cs) - width place =
          (Utf8.encodeList front).length := by
        unfold width
        rw [← hf, Utf8.encodeList_append, List.length_append, Nat.add_sub_cancel_right]
      cases h
      exact ⟨front, place, hf.symm, hwidth, rfl⟩

/-- the same text behind a mark -/
theorem ofMarkup_marked {cs : List Char} (h : cs.head? ≠ some Element.byteOrderMark) :
    outcome (ofMarkup (Element.byteOrderMark :: cs)) =
      (outcome (ofMarkup cs)).mapError (Error.moved 0 (Element.byteOrderMark :: cs)) := by
  have htext : Element.ofText (Element.byteOrderMark :: cs) = Element.ofText cs := by
    unfold Element.ofText
    rw [Element.unmarked_mark, Element.unmarked_of_head? h]
  unfold ofMarkup
  rw [htext]
  cases Element.ofText cs with
  | error f => exact congrArg Except.error (Error.ofFailure_marked h f)
  | ok root =>
    dsimp only
    cases ho : outcome (ofElement root) with
    | ok s => rfl
    | error e =>
      have he (cause : Cause) (offset : Nat) (position : Position) :
          e ≠ .malformed cause offset position := fun heq =>
        ofElement_ne_malformed root cause offset position (ho.trans (congrArg _ heq))
      exact congrArg Except.error (Error.moved_of_ne he _ _).symm

/-! ## bytes -/

theorem ofMarkup_of_decode {cs : List Char} {e : Markup.Error}
    (h : outcome (decode .xml (Utf8.encodeList cs)) = .error (.xml e)) :
    outcome (ofMarkup cs) = .error e := by
  rw [outcome_decode_encodeList] at h
  cases ho : outcome (ofMarkup cs) with
  | ok s =>
    rw [ho] at h
    cases h
  | error e' =>
    rw [ho] at h
    cases h
    rfl

/-- what is reported of a text behind a mark -/
theorem decode_marked {cs : List Char} (h : cs.head? ≠ some Element.byteOrderMark) :
    outcome (decode .xml (Utf8.encodeList (Element.byteOrderMark :: cs))) =
      (outcome (decode .xml (Utf8.encodeList cs))).mapError
        (ReadError.moved 0 (Element.byteOrderMark :: cs)) := by
  rw [outcome_decode_encodeList, outcome_decode_encodeList, ofMarkup_marked h]
  cases outcome (ofMarkup cs) <;> rfl

/-- moving an error by no bytes and by some comes to the same if it has no place -/
theorem mapError_moved_eq_iff {x : Except ReadError Spec} {shift : Nat} (hpos : 0 < shift)
    (text : List Char) :
    x.mapError (ReadError.moved 0 text) = x.mapError (ReadError.moved shift text) ↔
      ∀ cause offset position, x ≠ .error (.xml (.malformed cause offset position)) := by
  constructor
  · rintro h cause offset position rfl
    injection h with h
    injection h with h
    injection h with _ ho _
    omega
  · intro h
    match x with
    | .ok s => rfl
    | .error (.xml e) =>
      have he (cause : Cause) (offset : Nat) (position : Position) :
          e ≠ .malformed cause offset position := fun heq => h cause offset position (heq ▸ rfl)
      show Except.error (ReadError.xml (e.moved 0 text)) = .error (.xml (e.moved shift text))
      rw [Error.moved_of_ne he, Error.moved_of_ne he]
    | .error (.json e) => rfl
    | .error (.yaml e) => rfl
    | .error (.stream f) => rfl

/-- the offset of malformed markup lies in the text and between two characters, with its line and
its column, and so does the place three bytes behind it in the text with a mark in front; but what
is reported there keeps the offset and is looked up with it, which comes to the same only if
nothing is malformed -/
theorem decode_malformed (cs : List Char) (h : cs.head? ≠ some Element.byteOrderMark) :
    (∀ cause offset position,
      outcome (decode .xml (Utf8.encodeList cs)) =
          .error (.xml (.malformed cause offset position)) →
        position.IsAt cs offset ∧
        (Position.ofOffset (Element.byteOrderMark :: cs) (offset + 3)).IsAt
          (Element.byteOrderMark :: cs) (offset + 3)) ∧
    outcome (decode .xml (Utf8.encodeList (Element.byteOrderMark :: cs))) =
      (outcome (decode .xml (Utf8.encodeList cs))).mapError
        (ReadError.moved 0 (Element.byteOrderMark :: cs)) ∧
    (outcome (decode .xml (Utf8.encodeList (Element.byteOrderMark :: cs))) =
        (outcome (decode .xml (Utf8.encodeList cs))).mapError
          (ReadError.moved 3 (Element.byteOrderMark :: cs)) ↔
      ∀ cause offset position, outcome (decode .xml (Utf8.encodeList cs)) ≠
        .error (.xml (.malformed cause offset position))) := by
  refine ⟨fun cause offset position hd => ?_, decode_marked h, ?_⟩
  · obtain ⟨front, rest, hcs, rfl, rfl⟩ := exists_of_ofMarkup_malformed (ofMarkup_of_decode hd)
    rw [Element.unmarked_of_head? h] at hcs
    subst hcs
    have hlen : (Utf8.encodeList front).length + 3 =
        (Utf8.encodeList (Element.byteOrderMark :: front)).length := by
      rw [Utf8.encodeList_cons, List.length_append, Nat.add_comm]
      rfl
    refine ⟨Position.isAt_ofOffset front rest, ?_⟩
    rw [hlen]
    exact Position.isAt_ofOffset (Element.byteOrderMark :: front) rest
  · rw [decode_marked h]
    exact mapError_moved_eq_iff (by decide) _

/-- a tag on the third line whose attribute has no value -/
def thirdLine : List Char := "\n\n<a b/>".toList

theorem readFrom_thirdLine : Element.readFrom [] thirdLine =
    .error (.malformed (.attribute 3 .expectedEquals) "<a b/>".toList) := by
  have hlines : Progress.take [] (.text ['\n', '\n']) = .ok (.inside []) := by
    have hplain : unescape ['\n', '\n'] = .ok "\n\n" := unescape_escapeList ['\n', '\n']
    rw [Progress.take, hplain]
    rfl
  have hattributes : Markup.attributes ['a', ' ', 'b'] =
      .error (.attribute 3 .expectedEquals) := by
    unfold Markup.attributes
    rw [attributesFrom]
    rfl
  have htag : Progress.take [] (.single ['a', ' ', 'b']) =
      .error (.attribute 3 .expectedEquals) := by
    unfold Progress.take Element.ofTag
    dsimp only
    rw [hattributes]
    rfl
  have hnext : Token.next thirdLine = .ok (.text ['\n', '\n'], "<a b/>".toList) := rfl
  exact (Element.readFrom_of_next hnext hlines).trans (Element.readFrom_of_take_error rfl htag)

theorem outcome_decode_thirdLine :
    outcome (decode .xml (Utf8.encodeList thirdLine)) =
      .error (.xml (.malformed (.attribute 3 .expectedEquals) 2 ⟨3, 1⟩)) := by
  have htext : Element.ofText thirdLine = _ := readFrom_thirdLine
  rw [outcome_decode_encodeList]
  unfold ofMarkup
  rw [htext]
  rfl

/-- the statement at a text with a fault on its third line -/
theorem decode_malformed_thirdLine :
    thirdLine.head? ≠ some Element.byteOrderMark ∧
      (⟨3, 1⟩ : Position).IsAt thirdLine 2 ∧
      (Position.ofOffset (Element.byteOrderMark :: thirdLine) 5).IsAt
        (Element.byteOrderMark :: thirdLine) 5 ∧
      outcome (decode .xml (Utf8.encodeList (Element.byteOrderMark :: thirdLine))) ≠
        (outcome (decode .xml (Utf8.encodeList thirdLine))).mapError
          (ReadError.moved 3 (Element.byteOrderMark :: thirdLine)) := by
  have h : thirdLine.head? ≠ some Element.byteOrderMark := by decide
  obtain ⟨hat, -, hiff⟩ := decode_malformed thirdLine h
  obtain ⟨hown, hmoved⟩ := hat _ _ _ outcome_decode_thirdLine
  exact ⟨h, hown, hmoved, fun heq => hiff.1 heq _ _ _ outcome_decode_thirdLine⟩

/-- behind a mark the same fault is reported on the first line, with an offset inside the mark,
though the place of the fault is the start of the third line there as well -/
theorem decode_malformed_displaced :
    outcome (decode .xml (Utf8.encodeList thirdLine)) =
        .error (.xml (.malformed (.attribute 3 .expectedEquals) 2 ⟨3, 1⟩)) ∧
      outcome (decode .xml (Utf8.encodeList (Element.byteOrderMark :: thirdLine))) =
        .error (.xml (.malformed (.attribute 3 .expectedEquals) 2 ⟨1, 2⟩)) ∧
      Position.ofOffset (Element.byteOrderMark :: thirdLine) 5 = ⟨3, 1⟩ := by
  have hmarked : outcome (decode .xml (Utf8.encodeList (Element.byteOrderMark :: thirdLine))) =
      .error (.xml (.malformed (.attribute 3 .expectedEquals) 2 ⟨1, 2⟩)) := by
    have htext : Element.ofText (Element.byteOrderMark :: thirdLine) = _ := readFrom_thirdLine
    rw [outcome_decode_encodeList]
    unfold ofMarkup
    rw [htext]
    rfl
  exact ⟨outcome_decode_thirdLine, hmarked, by decide⟩

end Spec

end MachineSpec
