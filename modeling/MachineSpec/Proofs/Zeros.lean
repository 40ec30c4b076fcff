import MachineSpec.Proofs.Document.Zeros
import MachineSpec.Proofs.Json.Documents
import MachineSpec.Proofs.Json.Uniqueness
import MachineSpec.Proofs.RoundTrip
import MachineSpec.Proofs.Yaml.Documents

/-!
# Zeros of encoded specifications

Printing a document brings no zero in and takes none out: a text that might be taken for a zero is
quoted in YAML.  So in what is encoded, as in the document, nothing is zero but keys and values of
template options.

* `Document.zeros_toJson`, `Document.zeros_toYaml`   the zeros of a printed document
* `Spec.zeros_encode`           the zeros in what is encoded
* `Spec.zeros_encode_option`    an option with an empty key has one
-/

namespace MachineSpec

theorem toNat_eq_zero {n : UInt32} : n.toNat = 0 ↔ n = 0 :=
  UInt32.toNat_inj (b := 0)

/-! ## JSON -/

namespace Document

theorem isZero_toJson (d : Document) : d.toJson.isZero = d.isZero := by
  cases d with
  | number n =>
    show (decide (n.toNat = 0) && true) = decide (n = 0)
    rw [Bool.and_true]
    exact decide_eq_decide.2 toNat_eq_zero
  | list ds => cases ds <;> rfl
  | _ => rfl

mutual

theorem zeros_toJson : (d : Document) → d.toJson.zeros = d.zeros
  | .text _ | .number _ | .flag _ => rfl
  | .list ds => zeros_itemsToJson ds
  | .record ms => zeros_membersToJson ms

theorem zeros_itemsToJson : (ds : List Document) →
    Json.Value.itemZeros (itemsToJson ds) = itemZeros ds
  | [] => rfl
  | d :: ds => by
    rw [itemsToJson, Json.Value.itemZeros, itemZeros, zeros_toJson d, zeros_itemsToJson ds]

theorem zeros_membersToJson : (ms : List (String × Document)) →
    Json.Value.memberZeros (membersToJson ms) = memberZeros ms
  | [] => rfl
  | (key, d) :: ms => by
    rw [membersToJson, Json.Value.memberZeros, memberZeros, isZero_toJson, zeros_toJson d,
      zeros_membersToJson ms]

end

end Document

/-! ## YAML -/

namespace Yaml

open Quoting

theorem ofWord_of_styleOf {s : String} (h : styleOf s.toList = .plain) :
    Sense.ofWord s = .text := by
  have ha := isAmbiguous_of_styleOf h
  unfold Sense.isAmbiguous at ha
  split at ha
  · next heq => exact heq
  · cases ha

theorem ofWord_number (n : UInt32) : Sense.ofWord (toString n.toNat) = .integer n.toNat := by
  have hvoid : ¬ (toString n.toNat = "" || Sense.isNull (toString n.toNat)) = true := by
    rw [Bool.not_eq_true]
    exact isVoidWord_number n.toNat
  have hflag : Sense.flag? (toString n.toNat) = none := by
    unfold Sense.flag?
    rw [contains_number (by decide), contains_number (by decide)]
    rfl
  have hinteger : Sense.integer? (toString n.toNat).toList = some (n.toNat : Int) := by
    have hlt : n.toNat < Nat.pow 2 128 := Nat.lt_trans n.toNat_lt (by decide)
    unfold Sense.integer?
    split
    · next heq =>
      have hminus : '-' ∈ (toString n.toNat).toList := heq ▸ List.mem_cons_self
      exact absurd (Text.isDigit_of_mem_toString hminus) (by decide)
    · rw [natural?_toString]
      exact if_pos hlt
  unfold Sense.ofWord
  rw [if_neg hvoid, hflag, hinteger]

theorem ofWord_flag (b : Bool) : Sense.ofWord (toString b) = .flag b := by
  cases b <;> rfl

/-- a text is only written without quotes where its word stands for nothing else -/
theorem isZero_written (s : String) :
    Outline.isZero (.scalar (styleOf s.toList) s) = decide (s = "") := by
  cases hs : styleOf s.toList with
  | plain =>
    have hne : s ≠ "" := by
      rintro rfl
      cases hs
    show (Sense.ofWord s).isZero = _
    rw [ofWord_of_styleOf hs, decide_eq_false hne]
    rfl
  | _ => rfl

end Yaml

namespace Document

theorem isZero_toYaml (d : Document) : d.toYaml.isZero = d.isZero := by
  cases d with
  | text s => exact Yaml.isZero_written s
  | number n =>
    show (Yaml.Sense.ofWord (toString n.toNat)).isZero = decide (n = 0)
    rw [Yaml.ofWord_number]
    exact decide_eq_decide.2 (Int.natCast_eq_zero.trans toNat_eq_zero)
  | flag b =>
    show (Yaml.Sense.ofWord (toString b)).isZero = _
    rw [Yaml.ofWord_flag]
    rfl
  | list ds => cases ds <;> rfl
  | record ms => rfl

mutual

theorem zeros_toYaml : (d : Document) → d.toYaml.zeros = d.zeros
  | .text _ | .number _ | .flag _ => rfl
  | .list ds => zeros_itemsToYaml ds
  | .record ms => zeros_membersToYaml ms

theorem zeros_itemsToYaml : (ds : List Document) →
    Yaml.Outline.itemZeros (itemsToYaml ds) = itemZeros ds
  | [] => rfl
  | d :: ds => by
    rw [itemsToYaml, Yaml.Outline.itemZeros, itemZeros, zeros_toYaml d, zeros_itemsToYaml ds]

theorem zeros_membersToYaml : (ms : List (String × Document)) →
    Yaml.Outline.memberZeros (membersToYaml ms) = memberZeros ms
  | [] => rfl
  | (key, d) :: ms => by
    rw [membersToYaml, Yaml.Outline.memberZeros, memberZeros, isZero_toYaml, zeros_toYaml d,
      zeros_membersToYaml ms]
    rfl

end

end Document

/-! ## specifications -/

namespace Spec

/-- the value that a specification is encoded as -/
theorem encoded_json (s : Spec) : s.toDocument.value.toJson.Encoded (s.encode .json).value := by
  rw [value_encode, value_print_json]
  exact Json.encoded_print s.toDocument.value

theorem written_yaml (s : Spec) : s.toDocument.value.toYaml.Written (s.encode .yaml).value := by
  rw [value_encode, value_print_yaml]
  exact Yaml.written_print Yaml.linesFit_spec s.fits

/-- what is encoded is one value, or one document, in which the zeros are the empty keys and values
of template options -/
theorem zeros_encode (s : Spec) :
    ((∃ v : Json.Value, v.Encoded (s.encode .json).value) ∧
      ∀ v : Json.Value, v.Encoded (s.encode .json).value → v.zeros = s.blankOptions) ∧
    ((∃ o : Yaml.Outline, o.Written (s.encode .yaml).value) ∧
      ∀ o : Yaml.Outline, o.Written (s.encode .yaml).value → o.zeros = s.blankOptions) := by
  refine ⟨⟨⟨_, s.encoded_json⟩, fun v hv => ?_⟩, ⟨⟨_, s.written_yaml⟩, fun o ho => ?_⟩⟩
  · rw [hv.unique s.encoded_json, Document.zeros_toJson, s.zeros_toDocument]
  · rw [ho.unique s.written_yaml, Document.zeros_toYaml, s.zeros_toDocument]

/-- an option with an empty key has a member that is zero, so what is encoded need not be free of
them -/
theorem zeros_encode_option :
    ¬ ∀ s : Spec, (∀ v : Json.Value, v.Encoded (s.encode .json).value → v.zeros = []) ∧
      ∀ o : Yaml.Outline, o.Written (s.encode .yaml).value → o.zeros = [] := by
  intro h
  have hjson := (h { diskTemplate := some { options := [{ key := "", value := "x" }] } }).1 _
    (encoded_json _)
  rw [Document.zeros_toJson, zeros_toDocument] at hjson
  cases hjson

end Spec

end MachineSpec
