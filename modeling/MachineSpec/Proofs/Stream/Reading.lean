import MachineSpec.Codec

/-!
# Streams hold what their pieces hold

A stream is read call by call, byte by byte for JSON and with a larger room otherwise.  Every call
takes off the front of what is left, so the calls together give all bytes in their order, wherever
one piece ends and the next begins; and what is read from a stream is what is read from its bytes.

* `Stream.Source.drain_eq`      the calls together
* `Json.read_stream`            the same text at hand and from a stream
* `Spec.Agree`                  two readings of the same bytes that come to the same
* `Spec.decodeStream_agree`     the specification in a stream is the one in its bytes
-/

namespace MachineSpec

namespace Stream.Source

theorem of_read_error {room : Nat} {s : Source} {f : Failure} (h : s.read room = .error f) :
    s.bytes = [] ∧ s.failure? = some f := by
  unfold read at h
  split at h
  · next hc =>
    split at h
    · next hf =>
      cases h
      exact ⟨congrArg List.flatten hc, hf⟩
    · cases h
  · cases h

/-- a call with room for a byte finds nothing only at the end -/
theorem of_read_nil {room : Nat} (hr : 0 < room) {s rest : Source}
    (h : s.read room = .ok ([], rest)) : s.bytes = [] ∧ s.failure? = none := by
  unfold read at h
  split at h
  · next hc =>
    split at h
    · cases h
    · next hf => exact ⟨congrArg List.flatten hc, hf⟩
  · next c cs hc =>
    have htake : c.take room = [] := congrArg Prod.fst (Except.ok.inj h)
    rcases List.take_eq_nil_iff.1 htake with rfl | rfl
    · exact absurd hr (Nat.lt_irrefl 0)
    · exact absurd (hc ▸ List.mem_cons_self) s.filled

/-- calls up to the end give every byte, and the failure in place of the end -/
theorem drain_eq {room : Nat} (hr : 0 < room) (s : Source) :
    s.drain room = (s.bytes, s.failure?) := by
  fun_induction drain room s with
  | case1 s f h =>
    obtain ⟨hb, hf⟩ := of_read_error h
    rw [hb, hf]
  | case2 s rest h =>
    obtain ⟨hb, hf⟩ := of_read_nil hr h
    rw [hb, hf]
  | case3 s b t rest h bs failure? hd ih =>
    obtain ⟨hb, hf⟩ := bytes_of_read h
    rw [hd] at ih
    cases ih
    rw [hb, hf]

theorem readAll_eq {s : Source} (h : s.failure? = none) : s.readAll = .ok s.bytes := by
  unfold readAll
  rw [drain_eq (by decide), h]

end Stream.Source

/-- how far a reader has looked ahead shows in the mark of a fault only -/
theorem Json.read_stream (shape : Shape) (whole : Json.Place) :
    (read shape .stream whole).mapError Error.cause =
      (read shape .slice whole).mapError Error.cause := by
  unfold read
  split
  · rfl
  · cases shapeReader shape whole with
    | error f => rfl
    | ok v =>
      dsimp only
      split <;> rfl

namespace Spec

open Logged (outcome)

/-- two readings of the same bytes that come to the same: one specification or one error, but that
JSON may report a fault with another mark -/
inductive Agree : Format → Except ReadError Spec → Except ReadError Spec → Prop
  | same {format : Format} (x : Except ReadError Spec) : Agree format x x
  | json {a b : Json.Error} (cause : a.cause = b.cause) :
      Agree .json (.error (.json a)) (.error (.json b))

theorem glyphs_eq {source : Stream.Source} (h : source.failure? = none) :
    glyphs source = Glyph.ofBytes source.bytes := by
  unfold glyphs
  rw [Stream.Source.drain_eq Nat.one_pos, h]
  exact List.append_nil _

/-- a stream is read as its bytes are when they come byte by byte, or all together -/
theorem decodeStream_eq (format : Format) {source : Stream.Source} (h : source.failure? = none) :
    decodeStream format source =
      match format with
      | .json => do
        report (.decodingStream .json)
        ofDocument <$> settle .json (Json.read Spec.shape .stream (Glyph.ofBytes source.bytes))
      | .yaml => do
        report (.decodingStream .yaml)
        ofDocument <$> settle .yaml (Yaml.read Spec.shape source.bytes)
      | .xml => decodeMarkup source.bytes := by
  unfold decodeStream
  rw [glyphs_eq h, Stream.Source.readAll_eq h]
  cases format <;> rfl

theorem outcome_report_settle {ε : Type} (wrap : ε → ReadError) (entry : Log.Entry)
    (x : Except ε Document) :
    outcome (report entry >>= fun _ => ofDocument <$> settle wrap x) =
      (x.mapError wrap).map ofDocument := by
  cases x <;> rfl

theorem agree_json {x y : Except Json.Error Document}
    (h : y.mapError Json.Error.cause = x.mapError Json.Error.cause) :
    Agree .json ((x.mapError ReadError.json).map ofDocument)
      ((y.mapError ReadError.json).map ofDocument) := by
  cases x with
  | ok d =>
    cases y with
    | ok e =>
      cases h
      exact .same _
    | error b => cases h
  | error a =>
    cases y with
    | ok e => cases h
    | error b => exact .json (Except.error.inj h).symm

/-- a stream that does not fail is read as its bytes are, wherever it is cut into pieces -/
theorem decodeStream_agree (format : Format) (source : Stream.Source)
    (h : source.failure? = none) :
    Agree format (outcome (decode format source.bytes)) (outcome (decodeStream format source)) ∧
      ∀ other : Stream.Source, other.failure? = none → other.bytes = source.bytes →
        decodeStream format other = decodeStream format source := by
  constructor
  · rw [decodeStream_eq format h]
    cases format with
    | json =>
      show Agree .json (outcome (report _ >>= fun _ => ofDocument <$> settle .json _))
        (outcome (report _ >>= fun _ => ofDocument <$> settle .json _))
      rw [outcome_report_settle, outcome_report_settle]
      exact agree_json (Json.read_stream _ _)
    | yaml =>
      show Agree .yaml (outcome (report _ >>= fun _ => ofDocument <$> settle .yaml _))
        (outcome (report _ >>= fun _ => ofDocument <$> settle .yaml _))
      rw [outcome_report_settle, outcome_report_settle]
      exact .same _
    | xml => exact .same _
  · intro other ho hb
    rw [decodeStream_eq format ho, decodeStream_eq format h, hb]

/-- a name whose only letter is cut in two -/
theorem decodeStream_agree_cutLetter :
    (Stream.Source.ofBytes 10 (Utf8.encode "\x7b\"name\":\"é\"\x7d") none).failure? = none ∧
      Agree .json
        (outcome (decode .json
          (Stream.Source.ofBytes 10 (Utf8.encode "\x7b\"name\":\"é\"\x7d") none).bytes))
        (outcome (decodeStream .json
          (Stream.Source.ofBytes 10 (Utf8.encode "\x7b\"name\":\"é\"\x7d") none))) :=
  ⟨rfl, (decodeStream_agree .json
    (Stream.Source.ofBytes 10 (Utf8.encode "\x7b\"name\":\"é\"\x7d") none) rfl).1⟩

end Spec

end MachineSpec
