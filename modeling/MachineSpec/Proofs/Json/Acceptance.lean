import MachineSpec.Proofs.Json.Collections
import MachineSpec.Proofs.Stream.Reading

/-!
# What JSON is accepted

The reader of a shape takes the values of the shape, by induction on the shape.  So bytes are
accepted if and only if they hold one value of the shape and nothing around it but white space, and
they are read as what the value stands for.

* `Reader.takes_shape`       the reader of a shape
* `exists_of_read`           a place that is read as a document
* `read_eq_ok`               the bytes of a document
* `Spec.decode_json_eq_ok`   the bytes of a specification, by way of its document
-/

namespace MachineSpec

namespace Json

namespace Reader

mutual

theorem takes_shape : (shape : Shape) → Takes (shapeReader shape) (StandsFor shape)
  | .text => takes_text
  | .number => takes_number
  | .flag => takes_flag
  | .choice words => takes_choice words
  | .list item => takes_list (takes_shape item)
  | .record title fields => takes_record (takes_fields fields) title

theorem takes_fields : (fields : List (String × Shape)) →
    ∀ field ∈ fields, Takes (shapeReader field.2) (StandsFor field.2)
  | [] => fun _ h => absurd h List.not_mem_nil
  | (_, shape) :: fields => List.forall_mem_cons.2 ⟨takes_shape shape, takes_fields fields⟩

end

/-- a record is read whatever follows -/
theorem shapeReader_record {title : String} {fields : List (String × Shape)} {ws cs : List Char}
    {v : Value} {d : Document} (hw : Blanks ws) (hs : ValueSpelled v cs)
    (h : StandsFor (.record title fields) v d) (r : Place) :
    shapeReader (.record title fields) (glyphs ws ++ (glyphs cs ++ r)) = .ok (d, r) :=
  record_spelled (takes_fields fields) hw hs h r

end Reader

/-- a place that is read as a document holds one value, and nothing but white space around it -/
theorem exists_of_read {shape : Shape} {source : Source} {whole : Place} {d : Document}
    (h : read shape source whole = .ok d) :
    ∃ v ws cs ws', Blanks ws ∧ ValueSpelled v cs ∧ Blanks ws' ∧ StandsFor shape v d ∧
      whole = glyphs (ws ++ (cs ++ ws')) := by
  unfold read at h
  split at h
  · cases h
  split at h
  · cases h
  next r hread =>
  split at h
  · next hskip =>
    cases h
    obtain ⟨ws, v, cs, hw, hv, hs, rfl⟩ := (Reader.takes_shape shape).sound hread
    obtain ⟨ws', hw', rfl⟩ := skip_eq_nil.1 hskip
    exact ⟨v, ws, cs, ws', hw, hv, hw', hs, by rw [glyphs_append, glyphs_append]⟩
  · cases h
  · cases h

/-- a text at hand, or from a stream, is read as a document if and only if it is one value of the
shape -/
theorem read_eq_ok {shape : Shape} {source : Source} {bytes : Bytes} {d : Document} :
    read shape source (Glyph.ofBytes bytes) = .ok d ↔
      ∃ v : Value, v.Encoded bytes ∧ StandsFor shape v d := by
  constructor
  · intro h
    obtain ⟨v, ws, cs, ws', hw, hv, hw', hs, hp⟩ := exists_of_read h
    exact ⟨v, ⟨ws, cs, ws', hw, hv, hw', Glyph.eq_encodeList_of_ofBytes hp⟩, hs⟩
  · rintro ⟨v, ⟨ws, cs, ws', hw, hv, hw', rfl⟩, hs⟩
    obtain ⟨c, ds, rfl, hc, -⟩ := exists_spelled hv
    have hg : Glyph.ofBytes (Utf8.encodeList (ws ++ (c :: ds ++ ws'))) =
        glyphs ws ++ (glyphs (c :: ds) ++ glyphs ws') := by
      rw [Glyph.ofBytes_encodeList, ← glyphs_append, ← glyphs_append]
      rfl
    have hskip : skip (glyphs ws ++ (glyphs (c :: ds) ++ glyphs ws')) =
        glyphs (c :: ds) ++ glyphs ws' :=
      (skip_glyphs hw _).trans (skip_char (mt blank_mem_enders hc) _)
    have hends : Digit.Ends (glyphs ws') := List.append_nil (glyphs ws') ▸
      ends_blanks hw' Digit.ends_nil
    unfold read
    rw [hg, hskip, (Reader.takes_shape shape).complete hw hv hs hends]
    split
    · next heq => cases heq
    · dsimp only
      rw [skip_eq_nil.2 ⟨ws', hw', rfl⟩]

end Json

namespace Spec

open Logged (outcome)

/-- bytes are accepted as JSON if and only if they are one value that conforms to the shape of
specifications, and they are read as the specification of its document -/
theorem decode_json_eq_ok (bytes : Bytes) (s : Spec) :
    outcome (decode .json bytes) = .ok s ↔
      ∃ (v : Json.Value) (d : Document), v.Encoded bytes ∧ Json.StandsFor shape v d ∧
        s = ofDocument d := by
  have hdecode : outcome (decode .json bytes) =
      ((Json.read shape .slice (Glyph.ofBytes bytes)).mapError ReadError.json).map ofDocument :=
    outcome_report_settle _ _ _
  rw [hdecode]
  constructor
  · intro h
    cases hread : Json.read shape .slice (Glyph.ofBytes bytes) with
    | error e =>
      rw [hread] at h
      cases h
    | ok d =>
      rw [hread] at h
      cases h
      obtain ⟨v, hv, hs⟩ := Json.read_eq_ok.1 hread
      exact ⟨v, d, hv, hs, rfl⟩
  · rintro ⟨v, d, hv, hs, rfl⟩
    rw [Json.read_eq_ok.2 ⟨v, hv, hs⟩]
    rfl

end Spec

end MachineSpec
