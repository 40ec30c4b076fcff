import MachineSpec.Codec

/-!
# Writing into a sink

A text is written in pieces, and each piece in as many calls as the sink needs to take it.  However
it is cut, what the sink has in the end is the front of the text, as much of it as there is room
for; writing succeeds if that is all of it, and ends with the failure of the sink otherwise.

* `Stream.Sink.offer`         what comes of a text that is written into a sink
* `Stream.Sink.offer_append`  a text in two parts
* `Stream.run_put`            one call
* `Stream.run_writeAll`       calls until all bytes have been taken
* `Stream.run_forM_writeAll`  a text in pieces
* `Spec.value_write`          a specification
* `Spec.write_takes_front`    a specification in a sink with room for some bytes
-/

namespace MachineSpec

namespace Stream

namespace Sink

/-- what comes of a text that is written into a sink, and the sink afterwards -/
def offer (s : Sink) (bs : Bytes) : Except Failure Unit × Sink :=
  (if s.accepts bs.length = bs.length then .ok () else .error (s.failure?.getD .stalled),
    s.push (bs.take (s.accepts bs.length)))

variable {s : Sink} {as bs : Bytes}

theorem accepts_le (s : Sink) (n : Nat) : s.accepts n ≤ n := by
  unfold accepts
  split
  · exact Nat.le_refl n
  · exact Nat.min_le_right _ n

theorem accepts_accepts (s : Sink) (n : Nat) : s.accepts (s.accepts n) = s.accepts n := by
  unfold accepts
  split
  · rfl
  · exact Nat.min_eq_right (Nat.min_le_left _ n)

/-- what a sink takes of more bytes than fit -/
theorem accepts_add_of_ne {a : Nat} (h : s.accepts a ≠ a) (b : Nat) :
    s.accepts (a + b) = s.accepts a := by
  unfold accepts at h ⊢
  split at h
  · exact absurd rfl h
  · omega

theorem accepts_push (h : s.accepts as.length = as.length) (n : Nat) :
    s.accepts (as.length + n) = as.length + (s.push as).accepts n := by
  obtain ⟨room?, failure?, written⟩ := s
  cases room? with
  | none => rfl
  | some m =>
    have hle : as.length ≤ m := h ▸ Nat.min_le_left m as.length
    show min m (as.length + n) = as.length + min (m - as.length) n
    omega

theorem push_nil (s : Sink) : s.push [] = s := by
  obtain ⟨room?, failure?, written⟩ := s
  cases room? <;> simp [push]

theorem push_append (s : Sink) (as bs : Bytes) : s.push (as ++ bs) = (s.push as).push bs := by
  obtain ⟨room?, failure?, written⟩ := s
  cases room? <;> simp [push, Nat.sub_add_eq]

theorem offer_nil (s : Sink) : s.offer [] = (.ok (), s) := by
  have h : s.accepts 0 = 0 := Nat.le_zero.1 (s.accepts_le 0)
  unfold offer
  rw [List.take_nil, push_nil, List.length_nil, if_pos h]

theorem offer_of_fits (h : s.accepts bs.length = bs.length) :
    s.offer bs = (.ok (), s.push bs) := by
  unfold offer
  rw [if_pos h, h, List.take_length]

/-- the second part is offered if the first one has been taken -/
theorem offer_append (h : s.accepts as.length = as.length) :
    s.offer (as ++ bs) = (s.push as).offer bs := by
  unfold offer
  rw [List.length_append, accepts_push h, List.take_length_add_append, push_append]
  simp only [Nat.add_left_cancel_iff]
  rfl

theorem offer_append_of_ne (h : s.accepts as.length ≠ as.length) (bs : Bytes) :
    s.offer (as ++ bs) = s.offer as := by
  have hlt : s.accepts as.length < as.length := Nat.lt_of_le_of_ne (s.accepts_le _) h
  have hne : s.accepts as.length ≠ as.length + bs.length := by omega
  unfold offer
  rw [List.length_append, accepts_add_of_ne h, List.take_append_of_le_length (Nat.le_of_lt hlt),
    if_neg h, if_neg hne]

end Sink

/-! ## calls -/

section run
variable {α β : Type} {x : Writing α} {f : α → Writing β} {s s' : Sink}

theorem run_bind {a : α} (h : x.run s = (.ok a, s')) : (x >>= f).run s = (f a).run s' := by
  show ExceptT.bindCont f (x.run s).1 (x.run s).2 = _
  rw [h]
  rfl

theorem run_bind_error {e : Failure} (h : x.run s = (.error e, s')) :
    (x >>= f).run s = (.error e, s') := by
  show ExceptT.bindCont f (x.run s).1 (x.run s).2 = _
  rw [h]
  rfl

end run

theorem run_put (s : Sink) (bs : Bytes) :
    (put bs).run s =
      match s.accepts bs.length, s.failure? with
      | 0, some f => (.error f, s)
      | n, _ => (.ok n, s.push (bs.take n)) := by
  show (match s.accepts bs.length, s.failure? with
    | 0, some f => throw f
    | n, _ => do
      set (s.push (bs.take n))
      return n : Writing Nat).run s = _
  split <;> rfl

/-- a call that finds no room takes nothing; it fails unless the sink says nothing -/
theorem run_put_of_full {s : Sink} {bs : Bytes} (h : s.accepts bs.length = 0) :
    (put bs).run s = (s.failure?.elim (.ok 0) .error, s) := by
  rw [run_put, h]
  cases s.failure? with
  | none => exact congrArg (Prod.mk _) s.push_nil
  | some f => rfl

theorem run_put_of_room {s : Sink} {bs : Bytes} {n : Nat} (h : s.accepts bs.length = n + 1) :
    (put bs).run s = (.ok (n + 1), s.push (bs.take (n + 1))) := by
  rw [run_put, h]
  rfl

/-- bytes that are written until all of them have been taken, in however many calls -/
theorem run_writeAll (bs : Bytes) (s : Sink) : (writeAll bs).run s = s.offer bs := by
  cases bs with
  | nil =>
    rw [writeAll, Sink.offer_nil]
    rfl
  | cons b t =>
    rw [writeAll]
    -- the sink is full, or the call takes a front and the rest is shorter than before
    cases hn : s.accepts (b :: t).length with
    | zero =>
      have hput := run_put_of_full hn
      have hne : 0 ≠ (b :: t).length := (Nat.succ_ne_zero t.length).symm
      unfold Sink.offer
      rw [hn, if_neg hne, List.take_zero, Sink.push_nil]
      cases hf : s.failure? with
      | none =>
        rw [hf] at hput
        rw [run_bind hput]
        rfl
      | some f =>
        rw [hf] at hput
        rw [run_bind_error hput]
        rfl
    | succ n =>
      have hle := s.accepts_le (b :: t).length
      have hfits : s.accepts ((b :: t).take (n + 1)).length = ((b :: t).take (n + 1)).length := by
        rw [List.length_take_of_le (hn ▸ hle), ← hn, s.accepts_accepts]
      rw [run_bind (run_put_of_room hn)]
      show (writeAll ((b :: t).drop (n + 1))).run _ = _
      rw [run_writeAll, ← Sink.offer_append hfits, List.take_append_drop]
termination_by bs.length
decreasing_by
  simp only [List.length_drop, List.length_cons]
  omega

theorem encode_join_cons (piece : String) (pieces : List String) :
    Utf8.encode (String.join (piece :: pieces)) =
      Utf8.encode piece ++ Utf8.encode (String.join pieces) := by
  unfold Utf8.encode Utf8.encodeList
  rw [String.join_cons, String.toList_append, List.flatMap_append]

/-- a text that is written in pieces -/
theorem run_forM_writeAll (pieces : List String) (s : Sink) :
    (pieces.forM fun piece => writeAll (Utf8.encode piece)).run s =
      s.offer (Utf8.encode (String.join pieces)) := by
  induction pieces generalizing s with
  | nil =>
    rw [String.join_nil]
    exact s.offer_nil.symm
  | cons piece pieces ih =>
    have hrun := run_writeAll (Utf8.encode piece) s
    rw [encode_join_cons]
    show (writeAll (Utf8.encode piece) >>= fun _ => pieces.forM _).run _ = _
    by_cases hfits : s.accepts (Utf8.encode piece).length = (Utf8.encode piece).length
    · rw [Sink.offer_of_fits hfits] at hrun
      rw [run_bind hrun, ih, Sink.offer_append hfits]
    · rw [Sink.offer_append_of_ne hfits]
      unfold Sink.offer at hrun ⊢
      rw [if_neg hfits] at hrun ⊢
      rw [run_bind_error hrun]

end Stream

namespace Spec

/-- a specification that is written into a sink is offered as its bytes are -/
theorem value_write_offer (format : Format) (s : Spec) (sink : Stream.Sink) :
    (s.write format sink).value =
      ((sink.offer (s.encode format).value).1.mapError .write,
        (sink.offer (s.encode format).value).2) := by
  unfold write
  rw [Logged.value_bind, Stream.run_forM_writeAll]
  rfl

/-- written into a sink without a limit, a specification leaves its bytes there -/
theorem value_write (format : Format) (s : Spec) :
    (s.write format {}).value = (.ok (), { written := (s.encode format).value }) := by
  rw [value_write_offer, Stream.Sink.offer_of_fits rfl]
  rfl

/-- written into a sink that has room for `k` bytes, a specification leaves the first `k` of its
bytes there; it is written if that is all of them, and otherwise the sink says what went wrong -/
theorem write_takes_front (format : Format) (s : Spec) (k : Nat)
    (failure? : Option Stream.Failure) (before : Bytes) :
    let out := (s.encode format).value
    let failure := failure?.getD ⟨.writeZero, "failed to write whole buffer"⟩
    let result := (s.write format ⟨some k, failure?, before⟩).value
    result.2.written = before ++ out.take (min k out.length) ∧
      result.1 = (if out.length ≤ k then .ok () else .error (.write failure)) ∧
      (Error.write failure).isParse = false := by
  dsimp only
  rw [value_write_offer]
  generalize (s.encode format).value = out
  have hfits : Stream.Sink.accepts ⟨some k, failure?, before⟩ out.length = out.length ↔
      out.length ≤ k := by
    show min k out.length = out.length ↔ _
    omega
  refine ⟨rfl, ?_, rfl⟩
  unfold Stream.Sink.offer
  by_cases h : out.length ≤ k
  · rw [if_pos (hfits.2 h), if_pos h]
    rfl
  · rw [if_neg (mt hfits.1 h), if_neg h]
    rfl

end Spec

end MachineSpec
