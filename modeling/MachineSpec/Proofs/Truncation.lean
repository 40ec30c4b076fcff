import MachineSpec.Proofs.Json.Acceptance
import MachineSpec.Proofs.Markup.Truncation
import MachineSpec.Proofs.RoundTrip

/-!
# Documents cut short

No front of a written document is one itself, in JSON and in markup.  JSON needs no tree for that:
a record ends with its bracket, so if the front were read as one, what stands behind the front would
be left over when the whole is read, and nothing is left over there.  YAML is not like that, since
most of its lines can be the last one.

* `Json.eq_nil_of_read`   nothing is behind the front of a written record that is read
* `Spec.decode_cut_json`  what is reported of a front in JSON
* `Spec.decode_cut_xml`   what is reported of a front in markup
* `Spec.decode_cut`       both formats
-/

namespace MachineSpec

namespace Json

/-- a front of a written record that is read is all of it -/
theorem eq_nil_of_read {title : String} {fields : List (String × Shape)} {d d' : Document}
    (hd : (Shape.record title fields).Fits d) {source : Source} {p r : Bytes}
    (h : p ++ r = Utf8.encode (Printer.print d))
    (hread : read (.record title fields) source (Glyph.ofBytes p) = .ok d') : r = [] := by
  obtain ⟨v, ⟨ws, cs, ws', hw, hcs, -, rfl⟩, hs⟩ := read_eq_ok.1 hread
  obtain ⟨es, hes, rfl⟩ := Utf8.exists_of_encodeList_append h
  have hwhole : glyphs (Printer.print d).toList =
      glyphs ws ++ (glyphs cs ++ glyphs (ws' ++ es)) := by
    rw [hes]
    simp only [glyphs_append, List.append_assoc]
  -- the whole is read in two ways: as what was written, and as the front with something behind it
  have hall := shapeReader_print hd
  rw [hwhole, Reader.shapeReader_record hw hcs hs] at hall
  obtain ⟨-, hrest⟩ := Prod.mk.inj (Except.ok.inj hall)
  have hnil := List.append_eq_nil_iff.1 (List.map_eq_nil_iff.1 hrest)
  rw [hnil.2, Utf8.encodeList_nil]

end Json

namespace Spec

open Logged (outcome)

theorem decode_cut_json (s : Spec) {p r : Bytes} (hr : r ≠ [])
    (h : p ++ r = (s.encode .json).value) :
    ∃ e, outcome (decode .json p) = .error (.json e) := by
  rw [value_encode, value_print_json] at h
  have hdecode : outcome (decode .json p) =
      ((Json.read shape .slice (Glyph.ofBytes p)).mapError ReadError.json).map ofDocument :=
    outcome_report_settle _ _ _
  rw [hdecode]
  cases hread : Json.read shape .slice (Glyph.ofBytes p) with
  | error e => exact ⟨e, rfl⟩
  | ok d => exact absurd (Json.eq_nil_of_read s.fits h hread) hr

theorem decode_cut_xml (s : Spec) {p r : Bytes} (hr : r ≠ [])
    (h : p ++ r = (s.encode .xml).value) :
    ∃ e, outcome (decode .xml p) = .error (.xml e) := by
  rw [value_encode, value_print_xml] at h
  show ∃ e, outcome (decodeMarkup p) = _
  unfold decodeMarkup
  -- a front that ends inside a character is refused before its markup is looked at
  cases hp : Utf8.decode? p with
  | none => exact ⟨.notUtf8, rfl⟩
  | some cs =>
    rw [Utf8.eq_encodeList_of_decode? hp] at h
    obtain ⟨es, hes, rfl⟩ := Utf8.exists_of_encodeList_append h
    have hcut : Text.Cut cs (Markup.declaration ++ s.toMarkup.value.print).toList :=
      ⟨es, fun he => hr (by rw [he, Utf8.encodeList_nil]), hes.symm⟩
    obtain ⟨f, hf⟩ := Markup.Element.exists_of_ofText_cut s.reads.sound hcut
    refine ⟨.ofFailure cs f, ?_⟩
    show outcome (report _ >>= fun _ => (ofMarkup cs).adapt .xml) = _
    rw [Logged.outcome_bind, Logged.outcome_adapt]
    unfold ofMarkup
    rw [hf]
    rfl

/-- no proper front of a specification written in JSON or in markup is read as one -/
theorem decode_cut (s : Spec) (format : Format) (hformat : format ≠ .yaml) (p : Bytes)
    (hp : p <+: (s.encode format).value) (hne : p ≠ (s.encode format).value) :
    ∃ e, outcome (decode format p) = .error e ∧ (Error.parse e).isParse = true ∧
      ((Error.parse e).isXml = true ↔ format = .xml) := by
  obtain ⟨r, h⟩ := hp
  have hr : r ≠ [] := by
    rintro rfl
    rw [List.append_nil] at h
    exact hne h
  cases format with
  | yaml => exact absurd rfl hformat
  | json =>
    obtain ⟨e, he⟩ := decode_cut_json s hr h
    exact ⟨_, he, rfl, iff_of_false Bool.false_ne_true nofun⟩
  | xml =>
    obtain ⟨e, he⟩ := decode_cut_xml s hr h
    exact ⟨_, he, rfl, iff_of_true rfl rfl⟩

/-- a name whose only letter is cut in two -/
theorem decode_cut_insideLetter :
    Format.json ≠ .yaml ∧
      Utf8.encode "\x7b\"name\":\"" ++ [0xC3] <+: (encode .json { name := "é" }).value ∧
      Utf8.encode "\x7b\"name\":\"" ++ [0xC3] ≠ (encode .json { name := "é" }).value ∧
      ∃ e, outcome (decode .json (Utf8.encode "\x7b\"name\":\"" ++ [0xC3])) = .error e ∧
        (Error.parse e).isParse = true ∧ ((Error.parse e).isXml = true ↔ Format.json = .xml) := by
  have hformat : Format.json ≠ .yaml := by decide
  have hp : Utf8.encode "\x7b\"name\":\"" ++ [0xC3] <+: (encode .json { name := "é" }).value := by
    decide
  have hne : Utf8.encode "\x7b\"name\":\"" ++ [0xC3] ≠ (encode .json { name := "é" }).value := by
    decide
  exact ⟨hformat, hp, hne, decode_cut _ _ hformat _ hp hne⟩

end Spec

end MachineSpec
