import MachineSpec.Proofs.Json.Acceptance

/-!
# A stream that breaks off holds no specification

A failure stands where a stream should end, and no reader takes it for the end.  Markup and YAML are
read to the end first, so there the failure is all that is reported.  JSON is read on the way: a
fault in front of the failure comes first, and behind a whole document the reader still looks for
the end and meets the failure instead.

* `Json.read_of_lost_mem`        a place with a failure in it is no document
* `Json.read_lost`               a failure behind a whole document
* `Spec.BreaksOff`               what is reported of a stream that breaks off
* `Spec.decodeStream_breaksOff`  every stream that fails, in every format
-/

namespace MachineSpec

theorem Stream.Source.readAll_error {s : Source} {f : Failure} (h : s.failure? = some f) :
    s.readAll = .error f := by
  unfold readAll
  rw [drain_eq (by decide), h]

namespace Json

/-- whatever has been read before, a failure is not passed over -/
theorem read_of_lost_mem {shape : Shape} {source : Source} {whole : Place} {text : String}
    (h : .lost text ∈ whole) : ∃ e, read shape source whole = .error e := by
  cases hread : read shape source whole with
  | error e => exact ⟨e, rfl⟩
  | ok d =>
    obtain ⟨v, ws, cs, ws', -, -, -, -, rfl⟩ := exists_of_read hread
    obtain ⟨c, -, hc⟩ := List.mem_map.1 h
    cases hc

/-- behind a whole document only the failure is left to report -/
theorem read_lost {title : String} {fields : List (String × Shape)} {source : Source}
    {bytes : Bytes} {v : Value} {d : Document} (hv : v.Encoded bytes)
    (hs : StandsFor (.record title fields) v d) (text : String) :
    read (.record title fields) source (Glyph.ofBytes bytes ++ [.lost text]) =
      .error ⟨.lost text, none⟩ := by
  obtain ⟨ws, cs, ws', hw, hcs, hw', rfl⟩ := hv
  have hwhole : Glyph.ofBytes (Utf8.encodeList (ws ++ (cs ++ ws'))) ++ [.lost text] =
      glyphs ws ++ (glyphs cs ++ (glyphs ws' ++ [.lost text])) := by
    rw [Glyph.ofBytes_encodeList]
    show glyphs _ ++ _ = _
    rw [glyphs_append, glyphs_append, List.append_assoc, List.append_assoc]
  have hread := Reader.shapeReader_record hw hcs hs (glyphs ws' ++ [.lost text])
  obtain ⟨c, ds, rfl, hc, -⟩ := exists_spelled hcs
  have hskip : skip (glyphs (c :: ds) ++ (glyphs ws' ++ [.lost text])) =
      glyphs (c :: ds) ++ (glyphs ws' ++ [.lost text]) := skip_char (mt blank_mem_enders hc) _
  unfold read
  rw [hwhole, hread, skip_glyphs hw, hskip]
  split
  · next heq => cases heq
  · dsimp only
    rw [skip_glyphs hw']
    rfl

end Json

namespace Spec

open Logged (outcome)

/-- what is reported of a stream that breaks off: the failure, unless JSON has a fault in front of
it -/
inductive BreaksOff (source : Stream.Source) (f : Stream.Failure) : Format → ReadError → Prop
  | json (e : Json.Error)
      (whole : ∀ s, outcome (decode .json source.bytes) = .ok s → e = ⟨.lost f.text, none⟩) :
      BreaksOff source f .json (.json e)
  | yaml : BreaksOff source f .yaml (.yaml (.lost f.text))
  | xml : BreaksOff source f .xml (.stream f)

theorem glyphs_of_failure {source : Stream.Source} {f : Stream.Failure}
    (h : source.failure? = some f) :
    glyphs source = Glyph.ofBytes source.bytes ++ [.lost f.text] := by
  unfold glyphs
  rw [Stream.Source.drain_eq Nat.one_pos, h]
  rfl

theorem exists_breaksOff {source : Stream.Source} {f : Stream.Failure}
    (h : source.failure? = some f) (format : Format) :
    ∃ e, outcome (decodeStream format source) = .error e ∧ BreaksOff source f format e := by
  unfold decodeStream
  cases format with
  | json =>
    have hlost : Glyph.lost f.text ∈ glyphs source := by
      rw [glyphs_of_failure h]
      exact List.mem_append_right _ List.mem_cons_self
    obtain ⟨e, he⟩ : ∃ e, Json.read shape .stream (glyphs source) = .error e :=
      Json.read_of_lost_mem hlost
    refine ⟨.json e, ?_, .json e fun s hs => ?_⟩
    · show outcome (report _ >>= fun _ => ofDocument <$> settle .json _) = _
      rw [outcome_report_settle, he]
      rfl
    · obtain ⟨v, d, hv, hd, -⟩ := (decode_json_eq_ok source.bytes s).1 hs
      rw [glyphs_of_failure h] at he
      exact Except.error.inj (he.symm.trans (Json.read_lost hv hd f.text))
  | yaml =>
    rw [Stream.Source.readAll_error h]
    exact ⟨_, rfl, .yaml⟩
  | xml =>
    rw [Stream.Source.readAll_error h]
    exact ⟨_, rfl, .xml⟩

/-- a stream that fails in place of its end gives no specification, whatever came before, and what
is reported is an error of reading that is neither one of markup nor of a selector -/
theorem decodeStream_breaksOff (format : Format) (source : Stream.Source) (f : Stream.Failure)
    (h : source.failure? = some f) :
    ∃ e, outcome (decodeStream format source) = .error e ∧ BreaksOff source f format e ∧
      (Error.parse e).isParse = true ∧ (Error.parse e).isXml = false ∧
      (Error.parse e).unsupportedSelector? = none := by
  obtain ⟨e, he, hb⟩ := exists_breaksOff h format
  refine ⟨e, he, hb, rfl, ?_, ?_⟩
  · cases hb <;> rfl
  · cases hb <;> rfl

/-- a whole document, the last letter of it in two pieces, and then a failure -/
theorem decodeStream_breaksOff_wholeDocument :
    (Stream.Source.ofBytes 10 (Utf8.encode "\x7b\"name\":\"é\"\x7d")
      (some ⟨.timedOut, "timed out"⟩)).failure? = some ⟨.timedOut, "timed out"⟩ ∧
      ∃ e, outcome (decodeStream .json
          (Stream.Source.ofBytes 10 (Utf8.encode "\x7b\"name\":\"é\"\x7d")
            (some ⟨.timedOut, "timed out"⟩))) = .error e ∧
        BreaksOff (Stream.Source.ofBytes 10 (Utf8.encode "\x7b\"name\":\"é\"\x7d")
          (some ⟨.timedOut, "timed out"⟩)) ⟨.timedOut, "timed out"⟩ .json e ∧
        (Error.parse e).isParse = true ∧ (Error.parse e).isXml = false ∧
        (Error.parse e).unsupportedSelector? = none :=
  ⟨rfl, decodeStream_breaksOff .json
    (Stream.Source.ofBytes 10 (Utf8.encode "\x7b\"name\":\"é\"\x7d")
      (some ⟨.timedOut, "timed out"⟩)) ⟨.timedOut, "timed out"⟩ rfl⟩

end Spec

end MachineSpec
