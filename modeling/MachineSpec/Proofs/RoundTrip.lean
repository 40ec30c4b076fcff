import MachineSpec.Proofs.Document.Contents
import MachineSpec.Proofs.Json.Documents
import MachineSpec.Proofs.Markup.Specs
import MachineSpec.Proofs.Stream.Writing
import MachineSpec.Proofs.Yaml.Documents

/-!
# Writing and reading back

A specification that is written and read back in the same format is canonical, and otherwise as it
was.  Markup has no element for an empty text, so it also drops the empty tags.

* `Spec.decode_encode_xml`, `Spec.decode_encode_json`, `Spec.decode_encode_yaml`
* `Spec.kept`             what a format keeps of a specification
* `Spec.recode_eq`        the same for every format
-/

namespace MachineSpec.Spec

open Logged (outcome)

/-! ## the text of a specification -/

theorem value_print_json (s : Spec) :
    (s.print .json).value = Json.Printer.print s.toDocument.value := rfl

theorem value_print_yaml (s : Spec) :
    (s.print .yaml).value = Yaml.Printer.print s.toDocument.value := by
  show String.join [Yaml.Printer.print s.toDocument.value] = _
  rw [String.join_cons, String.join_nil, String.append_empty]

theorem value_print_xml (s : Spec) :
    (s.print .xml).value = Markup.declaration ++ s.toMarkup.value.print := by
  show String.join (Markup.declaration :: s.toMarkup.value.lexemes) = _
  rw [String.join_cons]
  rfl

theorem value_encode (format : Format) (s : Spec) :
    (s.encode format).value = Utf8.encode (s.print format).value := rfl

/-! ## reading it back -/

theorem outcome_decode_json {bytes : Bytes} {d : Document}
    (h : Json.read shape .slice (Glyph.ofBytes bytes) = .ok d) :
    outcome (decode .json bytes) = .ok (ofDocument d) := by
  show outcome (report _ >>= fun _ => ofDocument <$> settle .json (Json.read _ _ _)) = _
  rw [h]
  rfl

theorem outcome_decode_yaml {bytes : Bytes} {d : Document} (h : Yaml.read shape bytes = .ok d) :
    outcome (decode .yaml bytes) = .ok (ofDocument d) := by
  show outcome (report _ >>= fun _ => ofDocument <$> settle .yaml (Yaml.read _ _)) = _
  rw [h]
  rfl

theorem outcome_decode_encodeList (cs : List Char) :
    outcome (decode .xml (Utf8.encodeList cs)) = (outcome (ofMarkup cs)).mapError .xml := by
  show outcome (decodeMarkup (Utf8.encodeList cs)) = _
  unfold decodeMarkup
  rw [Utf8.decode?_encodeList]
  show outcome (report _ >>= fun _ => (ofMarkup cs).adapt .xml) = _
  rw [Logged.outcome_bind, Logged.outcome_adapt]
  rfl

theorem outcome_decode_xml {text : String} {s : Spec} (h : outcome (ofMarkup text.toList) = .ok s) :
    outcome (decode .xml (Utf8.encode text)) = .ok s := by
  unfold Utf8.encode
  rw [outcome_decode_encodeList, h]
  rfl

/-- what a format keeps of a specification -/
def kept (format : Format) (s : Spec) : Spec :=
  match format with
  | .json | .yaml => s.canonical
  | .xml => s.canonical.dropEmptyTags

theorem kept_of_ne {format : Format} (h : format ≠ .xml) (s : Spec) :
    s.kept format = s.canonical := by
  cases format with
  | xml => exact absurd rfl h
  | _ => rfl

/-- a specification written in a format and read back -/
def recode (format : Format) (s : Spec) : Except ReadError Spec :=
  outcome (decode format (s.encode format).value)

theorem recode_eq (format : Format) (s : Spec) : s.recode format = .ok (s.kept format) := by
  unfold recode
  rw [value_encode]
  cases format with
  | json =>
    rw [value_print_json, outcome_decode_json (Json.read_print s.fits .slice),
      ofDocument_toDocument]
    rfl
  | yaml =>
    rw [value_print_yaml, outcome_decode_yaml (Yaml.read_print Yaml.linesFit_spec s.fits),
      ofDocument_toDocument]
    rfl
  | xml =>
    rw [value_print_xml, outcome_decode_xml s.outcome_ofMarkup]
    rfl

/-- markup takes every specification, and brings it back but for its empty tags -/
theorem decode_encode_xml (s : Spec) :
    (s.write .xml {}).value = (.ok (), { written := (s.encode .xml).value }) ∧
      outcome (decode .xml (s.encode .xml).value) = .ok s.canonical.dropEmptyTags :=
  ⟨value_write .xml s, recode_eq .xml s⟩

theorem decode_encode_json (s : Spec) :
    (s.write .json {}).value = (.ok (), { written := (s.encode .json).value }) ∧
      outcome (decode .json (s.encode .json).value) = .ok s.canonical :=
  ⟨value_write .json s, recode_eq .json s⟩

theorem decode_encode_yaml (s : Spec) :
    (s.write .yaml {}).value = (.ok (), { written := (s.encode .yaml).value }) ∧
      outcome (decode .yaml (s.encode .yaml).value) = .ok s.canonical :=
  ⟨value_write .yaml s, recode_eq .yaml s⟩

end MachineSpec.Spec
