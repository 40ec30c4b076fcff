import MachineSpec.Text.Glyph

/-!
# Encoded texts read back

A text is encoded one character after the other, and reading takes off exactly one character at a
time; so what was encoded is what is read.  A character has one encoding only, so what is read was
encoded.

* `next_encodeChar`       the character in front of a byte text
* `decode?_encodeList`    all characters of a byte text
* `encodeChar_of_next`    the bytes that have been taken off
* `eq_encodeList_of_decode?`, `exists_of_encodeList_append`   whole texts, and the front of one
* `Glyph.ofBytes_encodeList`, `Glyph.eq_encodeList_of_ofBytes`   the same text as glyphs
-/

namespace MachineSpec.Utf8

theorem ofNatAux_toNat (c : Char) (h : c.toNat.isValidChar) : Char.ofNatAux c.toNat h = c := by
  have hc := Char.ofNat_toNat c
  unfold Char.ofNat at hc
  rwa [dif_pos h] at hc

theorem isValidChar_toNat (c : Char) : c.toNat.isValidChar := c.valid

theorem toNat_lt (c : Char) : c.toNat < 0x110000 := by
  rcases isValidChar_toNat c with h | ⟨_, h⟩ <;> omega

theorem toNat_byte {n : Nat} (h : n < 256) : (byte n).toNat = n := by
  show (UInt8.ofNat n).toNat = n
  rw [UInt8.toNat_ofNat', Nat.mod_eq_of_lt h]

theorem tail?_byte {n : Nat} (h : n < 0x40) : tail? (byte (0x80 + n)) = some n := by
  unfold tail?
  rw [toNat_byte (by omega), if_pos ⟨by omega, by omega⟩, Nat.add_sub_cancel_left]

theorem scalar?_toNat (c : Char) {least : Nat} (h : least ≤ c.toNat) :
    scalar? least c.toNat = some c := by
  unfold scalar?
  rw [dif_pos (isValidChar_toNat c), if_pos h, ofNatAux_toNat]

/-! ## characters of each length -/

theorem encodeChar_one {c : Char} (h : c.toNat < 0x80) : encodeChar c = [byte c.toNat] :=
  if_pos h

theorem encodeChar_two {c : Char} (h : ¬c.toNat < 0x80) (h' : c.toNat < 0x800) :
    encodeChar c = [byte (0xC0 + c.toNat / 0x40), byte (0x80 + c.toNat % 0x40)] :=
  (if_neg h).trans (if_pos h')

theorem encodeChar_three {c : Char} (h : ¬c.toNat < 0x800) (h' : c.toNat < 0x10000) :
    encodeChar c = [byte (0xE0 + c.toNat / 0x1000), byte (0x80 + c.toNat / 0x40 % 0x40),
      byte (0x80 + c.toNat % 0x40)] :=
  (if_neg (by omega)).trans ((if_neg h).trans (if_pos h'))

theorem encodeChar_four {c : Char} (h : ¬c.toNat < 0x10000) :
    encodeChar c = [byte (0xF0 + c.toNat / 0x40000), byte (0x80 + c.toNat / 0x1000 % 0x40),
      byte (0x80 + c.toNat / 0x40 % 0x40), byte (0x80 + c.toNat % 0x40)] :=
  (if_neg (by omega)).trans ((if_neg (by omega)).trans (if_neg h))

theorem next_one {n : Nat} (h : n < 0x80) (r : Bytes) :
    next (byte n :: r) = (scalar? 0 n).map (·, r) := by
  simp only [next]
  rw [toNat_byte (by omega), if_pos h]

theorem next_two {n x : Nat} (hn : n < 0x20) (hx : x < 0x40) (r : Bytes) :
    next (byte (0xC0 + n) :: byte (0x80 + x) :: r) =
      (scalar? 0x80 (n * 0x40 + x)).map (·, r) := by
  simp only [next]
  rw [toNat_byte (by omega), if_neg (by omega), if_neg (by omega), if_pos (by omega),
    tail?_byte hx, Nat.add_sub_cancel_left]
  simp only [Option.bind_eq_bind, Option.bind_some, Option.pure_def, Option.map_eq_bind,
    Function.comp_def]

theorem next_three {n x y : Nat} (hn : n < 0x10) (hx : x < 0x40) (hy : y < 0x40) (r : Bytes) :
    next (byte (0xE0 + n) :: byte (0x80 + x) :: byte (0x80 + y) :: r) =
      (scalar? 0x800 (n * 0x1000 + x * 0x40 + y)).map (·, r) := by
  simp only [next]
  rw [toNat_byte (by omega), if_neg (by omega), if_neg (by omega), if_neg (by omega),
    if_pos (by omega), tail?_byte hx, tail?_byte hy, Nat.add_sub_cancel_left]
  simp only [Option.bind_eq_bind, Option.bind_some, Option.pure_def, Option.map_eq_bind,
    Function.comp_def]

theorem next_four {n x y z : Nat} (hn : n < 0x10) (hx : x < 0x40) (hy : y < 0x40) (hz : z < 0x40)
    (r : Bytes) :
    next (byte (0xF0 + n) :: byte (0x80 + x) :: byte (0x80 + y) :: byte (0x80 + z) :: r) =
      (scalar? 0x10000 (n * 0x40000 + x * 0x1000 + y * 0x40 + z)).map (·, r) := by
  simp only [next]
  rw [toNat_byte (by omega), if_neg (by omega), if_neg (by omega), if_neg (by omega),
    if_neg (by omega), tail?_byte hx, tail?_byte hy, tail?_byte hz, Nat.add_sub_cancel_left,
    Option.bind_eq_bind, Option.bind_some, Option.bind_eq_bind, Option.bind_some, Option.bind_some,
    Option.map_eq_bind]
  rfl

theorem next_encodeChar (c : Char) (r : Bytes) : next (encodeChar c ++ r) = some (c, r) := by
  have hlt := toNat_lt c
  by_cases h1 : c.toNat < 0x80
  · rw [encodeChar_one h1]
    show next (byte _ :: r) = _
    rw [next_one h1, scalar?_toNat c (Nat.zero_le _)]
    rfl
  by_cases h2 : c.toNat < 0x800
  · rw [encodeChar_two h1 h2]
    show next (byte _ :: byte _ :: r) = _
    have he : c.toNat / 0x40 * 0x40 + c.toNat % 0x40 = c.toNat := by omega
    rw [next_two (by omega) (by omega), he, scalar?_toNat c (by omega)]
    rfl
  by_cases h3 : c.toNat < 0x10000
  · rw [encodeChar_three h2 h3]
    show next (byte _ :: byte _ :: byte _ :: r) = _
    have he : c.toNat / 0x1000 * 0x1000 + c.toNat / 0x40 % 0x40 * 0x40 + c.toNat % 0x40 =
        c.toNat := by omega
    rw [next_three (by omega) (by omega) (by omega), he, scalar?_toNat c (by omega)]
    rfl
  · rw [encodeChar_four h3]
    show next (byte _ :: byte _ :: byte _ :: byte _ :: r) = _
    have he : c.toNat / 0x40000 * 0x40000 + c.toNat / 0x1000 % 0x40 * 0x1000 +
        c.toNat / 0x40 % 0x40 * 0x40 + c.toNat % 0x40 = c.toNat := by omega
    rw [next_four (by omega) (by omega) (by omega) (by omega), he, scalar?_toNat c (by omega)]
    rfl

/-! ## whole texts -/

theorem encodeChar_ne_nil (c : Char) : encodeChar c ≠ [] := by
  intro h
  have hn := next_encodeChar c []
  rw [h] at hn
  cases hn

theorem size_pos (c : Char) : 0 < size c := List.length_pos_iff.2 (encodeChar_ne_nil c)

theorem length_encodeList_cons (c : Char) (cs : List Char) :
    (encodeList (c :: cs)).length = size c + (encodeList cs).length := by
  rw [encodeList_cons, List.length_append]
  rfl

theorem length_encodeList_append (a b : List Char) :
    (encodeList (a ++ b)).length = (encodeList a).length + (encodeList b).length := by
  rw [encodeList_append, List.length_append]

theorem length_encodeList_singleton (c : Char) : (encodeList [c]).length = size c := by
  rw [length_encodeList_cons]
  rfl

/-- a text has no more characters than bytes -/
theorem length_le_length_encodeList (cs : List Char) : cs.length ≤ (encodeList cs).length := by
  induction cs with
  | nil => exact Nat.le_refl 0
  | cons c cs ih =>
    have hpos := size_pos c
    rw [length_encodeList_cons, List.length_cons]
    omega

/-- what was encoded is what is decoded -/
theorem decode?_encodeList (cs : List Char) : decode? (encodeList cs) = some cs := by
  induction cs with
  | nil => rw [encodeList_nil, decode?]
  | cons c cs ih =>
    have hn := next_encodeChar c (encodeList cs)
    rw [encodeList_cons]
    cases hb : encodeChar c ++ encodeList cs with
    | nil => exact absurd (List.append_eq_nil_iff.1 hb).1 (encodeChar_ne_nil c)
    | cons b bs =>
      rw [hb] at hn
      rw [decode?]
      split
      · next heq => rw [hn] at heq; cases heq
      · next heq =>
        rw [hn] at heq
        cases heq
        rw [ih]
        rfl

theorem decode?_encode (s : String) : decode? (encode s) = some s.toList := decode?_encodeList _

theorem encode_injective {s t : String} (h : encode s = encode t) : s = t := by
  have hs := decode?_encode s
  rw [h, decode?_encode] at hs
  exact (String.toList_inj.1 (Option.some.inj hs)).symm

/-! ## what is read was encoded -/

theorem byte_toNat (b : UInt8) : byte b.toNat = b := UInt8.ofNat_toNat

theorem of_tail? {b : UInt8} {x : Nat} (h : tail? b = some x) :
    x < 0x40 ∧ b = byte (0x80 + x) := by
  unfold tail? at h
  split at h
  · next hb =>
    injection h with h
    have hn : 0x80 + x = b.toNat := by omega
    exact ⟨by omega, by rw [hn, byte_toNat]⟩
  · cases h

theorem of_scalar? {least n : Nat} {c : Char} (h : scalar? least n = some c) :
    c.toNat = n ∧ least ≤ n := by
  unfold scalar? at h
  by_cases hv : n.isValidChar
  · by_cases hn : least ≤ n
    · rw [dif_pos hv, if_pos hn] at h
      cases h
      exact ⟨rfl, hn⟩
    · rw [dif_pos hv, if_neg hn] at h
      cases h
  · rw [dif_neg hv] at h
    cases h

/-- the bytes that a character has been read from are its only encoding -/
theorem encodeChar_of_next {bs r : Bytes} {c : Char} (h : next bs = some (c, r)) :
    bs = encodeChar c ++ r := by
  unfold next at h
  split at h
  · cases h
  next a r' =>
  have ha := a.toNat_lt
  split at h
  · next h1 =>
    obtain ⟨_, hc, he⟩ := Option.map_eq_some_iff.1 h
    cases he
    obtain ⟨hc, -⟩ := of_scalar? hc
    rw [encodeChar_one (by omega), hc, byte_toNat]
    rfl
  split at h
  · cases h
  split at h
  · split at h
    · next b r' =>
      simp only [Option.bind_eq_bind, Option.bind_eq_some_iff] at h
      obtain ⟨y, hy, c', hc, he⟩ := h
      cases he
      obtain ⟨hc, hle⟩ := of_scalar? hc
      obtain ⟨hy, rfl⟩ := of_tail? hy
      have he : 0xC0 + c.toNat / 0x40 = a.toNat := by omega
      have hm : c.toNat % 0x40 = y := by omega
      rw [encodeChar_two (by omega) (by omega), he, hm, byte_toNat]
      rfl
    · cases h
  split at h
  · split at h
    · next b d r' =>
      simp only [Option.bind_eq_bind, Option.bind_eq_some_iff] at h
      obtain ⟨y, hy, z, hz, c', hc, he⟩ := h
      cases he
      obtain ⟨hc, hle⟩ := of_scalar? hc
      obtain ⟨hy, rfl⟩ := of_tail? hy
      obtain ⟨hz, rfl⟩ := of_tail? hz
      have he : 0xE0 + c.toNat / 0x1000 = a.toNat := by omega
      have hm : c.toNat / 0x40 % 0x40 = y := by omega
      have hl : c.toNat % 0x40 = z := by omega
      rw [encodeChar_three (by omega) (by omega), he, hm, hl, byte_toNat]
      rfl
    · cases h
  · split at h
    · next b d e r' =>
      simp only [Option.bind_eq_bind, Option.bind_eq_some_iff] at h
      obtain ⟨x, hx, y, hy, z, hz, c', hc, he⟩ := h
      cases he
      obtain ⟨hc, hle⟩ := of_scalar? hc
      obtain ⟨hx, rfl⟩ := of_tail? hx
      obtain ⟨hy, rfl⟩ := of_tail? hy
      obtain ⟨hz, rfl⟩ := of_tail? hz
      have he : 0xF0 + c.toNat / 0x40000 = a.toNat := by omega
      have hk : c.toNat / 0x1000 % 0x40 = x := by omega
      have hm : c.toNat / 0x40 % 0x40 = y := by omega
      have hl : c.toNat % 0x40 = z := by omega
      rw [encodeChar_four (by omega), he, hk, hm, hl, byte_toNat]
      rfl
    · cases h

/-- a byte text that is UTF-8 throughout encodes its characters -/
theorem eq_encodeList_of_decode? {bs : Bytes} {cs : List Char} (h : decode? bs = some cs) :
    bs = encodeList cs := by
  fun_induction decode? bs generalizing cs with
  | case1 =>
    cases h
    rfl
  | case2 b t hn =>
    split at h
    · cases h
    · next heq => rw [hn] at heq; cases heq
  | case3 b t c r hn ih =>
    split at h
    · cases h
    next heq =>
    rw [hn] at heq
    cases heq
    obtain ⟨ds, hd, rfl⟩ := Option.map_eq_some_iff.1 h
    rw [encodeList_cons, ← ih hd]
    exact encodeChar_of_next hn

/-- where the bytes of one text are followed by the rest of another, so are its characters -/
theorem exists_of_encodeList_append {cs ds : List Char} {x : Bytes}
    (h : encodeList cs ++ x = encodeList ds) : ∃ es, ds = cs ++ es ∧ x = encodeList es := by
  induction cs generalizing ds with
  | nil => exact ⟨ds, rfl, h⟩
  | cons c cs ih =>
    have hc := next_encodeChar c (encodeList cs ++ x)
    rw [← List.append_assoc, ← encodeList_cons, h] at hc
    cases ds with
    | nil => cases hc
    | cons d ds =>
      rw [encodeList_cons, next_encodeChar] at hc
      obtain ⟨rfl, hr⟩ := Prod.mk.inj (Option.some.inj hc)
      obtain ⟨es, rfl, hx⟩ := ih hr.symm
      exact ⟨es, rfl, hx⟩

end MachineSpec.Utf8

namespace MachineSpec.Glyph

/-- an encoded text has a glyph for each character, and no byte outside of characters -/
theorem ofBytes_encodeList (cs : List Char) :
    ofBytes (Utf8.encodeList cs) = cs.map Glyph.char := by
  induction cs with
  | nil => rw [Utf8.encodeList_nil, ofBytes]; rfl
  | cons c cs ih =>
    have hn := Utf8.next_encodeChar c (Utf8.encodeList cs)
    rw [Utf8.encodeList_cons]
    cases hb : Utf8.encodeChar c ++ Utf8.encodeList cs with
    | nil => exact absurd (List.append_eq_nil_iff.1 hb).1 (Utf8.encodeChar_ne_nil c)
    | cons b bs =>
      rw [hb] at hn
      rw [ofBytes]
      split
      · next heq =>
        rw [hn] at heq
        cases heq
        rw [ih]
        rfl
      · next heq => rw [hn] at heq; cases heq

/-- a byte text with no byte outside of characters encodes them -/
theorem eq_encodeList_of_ofBytes {bs : Bytes} {cs : List Char}
    (h : ofBytes bs = cs.map Glyph.char) : bs = Utf8.encodeList cs := by
  fun_induction ofBytes bs generalizing cs with
  | case1 =>
    obtain rfl := List.map_eq_nil_iff.1 h.symm
    rfl
  | case2 b t c r hn ih =>
    split at h
    · next heq =>
      rw [hn] at heq
      cases heq
      cases cs with
      | nil => cases h
      | cons d ds =>
        injection h with hc h
        cases hc
        rw [Utf8.encodeList_cons, ← ih h]
        exact Utf8.encodeChar_of_next hn
    · next heq => rw [hn] at heq; cases heq
  | case3 b t hn ih =>
    split at h
    · next heq => rw [hn] at heq; cases heq
    · cases cs <;> cases h

end MachineSpec.Glyph
