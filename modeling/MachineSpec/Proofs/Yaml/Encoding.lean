import MachineSpec.Proofs.Text.Coding
import MachineSpec.Yaml.Encoding

/-!
# Characters of an encoded text

An encoded text is read as its characters, wherever its blocks end: the bytes of a character that a
block cuts in two are carried over to the next block.

* `exists_encodeChar`       the bytes of a character, by what the first of them says
* `decodeChar_encodeChar`   a character in front of a block
* `decodeChar_take`         a character that is cut off
* `exists_take`             where a block cuts an encoded text
* `Characters.ofBytes_encodeList`
-/

namespace MachineSpec.Yaml

open Utf8

/-! ## one character -/

theorem leading?_byte {n : Nat} (h : n < 256) :
    leading? (byte n) =
      if n < 0x80 then some (1, n)
      else if n < 0xC0 then none
      else if n < 0xE0 then some (2, n - 0xC0)
      else if n < 0xF0 then some (3, n - 0xE0)
      else if n < 0xF8 then some (4, n - 0xF0)
      else none := by
  unfold leading?
  rw [toNat_byte h]

theorem trailing_byte (offset n : Nat) {x : Nat} (h : x < 0x40) (bs : Bytes) :
    trailing offset n (byte (0x80 + x) :: bs) = trailing (offset + 1) (n * 0x40 + x) bs := by
  rw [trailing, tail?_byte h]

/-- the first byte of a character says how many follow; they lead to its number, and no shorter
form does -/
theorem exists_encodeChar (c : Char) :
    ∃ b t bits, encodeChar c = b :: t ∧ leading? b = some (t.length + 1, bits) ∧ t.length < 4 ∧
      (∀ offset, trailing offset bits t = .ok c.toNat) ∧ least (t.length + 1) ≤ c.toNat := by
  have hlt := toNat_lt c
  by_cases h1 : c.toNat < 0x80
  · refine ⟨_, _, _, encodeChar_one h1, ?_, by decide, fun _ => rfl, Nat.zero_le _⟩
    rw [leading?_byte (by omega), if_pos h1]
    rfl
  by_cases h2 : c.toNat < 0x800
  · have he : c.toNat / 0x40 * 0x40 + c.toNat % 0x40 = c.toNat := by omega
    refine ⟨_, _, c.toNat / 0x40, encodeChar_two h1 h2, ?_, by simp, fun _ => ?_, ?_⟩
    · rw [leading?_byte (by omega), if_neg (by omega), if_neg (by omega), if_pos (by omega),
        Nat.add_sub_cancel_left]
      rfl
    · rw [trailing_byte _ _ (by omega), he]
      rfl
    · exact Nat.not_lt.1 h1
  by_cases h3 : c.toNat < 0x10000
  · have he : (c.toNat / 0x1000 * 0x40 + c.toNat / 0x40 % 0x40) * 0x40 + c.toNat % 0x40 =
        c.toNat := by omega
    refine ⟨_, _, c.toNat / 0x1000, encodeChar_three h2 h3, ?_, by simp, fun _ => ?_, ?_⟩
    · rw [leading?_byte (by omega), if_neg (by omega), if_neg (by omega), if_neg (by omega),
        if_pos (by omega), Nat.add_sub_cancel_left]
      rfl
    · rw [trailing_byte _ _ (by omega), trailing_byte _ _ (by omega), he]
      rfl
    · exact Nat.not_lt.1 h2
  · have he : ((c.toNat / 0x40000 * 0x40 + c.toNat / 0x1000 % 0x40) * 0x40 +
        c.toNat / 0x40 % 0x40) * 0x40 + c.toNat % 0x40 = c.toNat := by omega
    refine ⟨_, _, c.toNat / 0x40000, encodeChar_four h3, ?_, by simp, fun _ => ?_, ?_⟩
    · rw [leading?_byte (by omega), if_neg (by omega), if_neg (by omega), if_neg (by omega),
        if_neg (by omega), if_pos (by omega), Nat.add_sub_cancel_left]
      rfl
    · rw [trailing_byte _ _ (by omega), trailing_byte _ _ (by omega),
        trailing_byte _ _ (by omega), he]
      rfl
    · exact Nat.not_lt.1 h3

theorem length_encodeChar_le (c : Char) : (encodeChar c).length ≤ 4 := by
  obtain ⟨b, t, _, he, _, ht, _⟩ := exists_encodeChar c
  rw [he]
  exact ht

theorem decodeChar_encodeChar {c : Char} (h : isAllowed c = true) (offset : Nat) (r : Bytes) :
    decodeChar offset (encodeChar c ++ r) = .ok (some (c, (encodeChar c).length)) := by
  obtain ⟨b, t, bits, he, hl, -, ht, hs⟩ := exists_encodeChar c
  have hlen : ¬(t ++ r).length < t.length + 1 - 1 := by
    rw [List.length_append]
    omega
  have htake : (t ++ r).take (t.length + 1 - 1) = t := List.take_left
  rw [he, List.cons_append, List.length_cons]
  unfold decodeChar
  dsimp only
  rw [hl]
  dsimp only
  rw [if_neg hlen, htake, ht]
  show (if c.toNat < least (t.length + 1) then _ else
    if h : c.toNat.isValidChar then
      if isAllowed (Char.ofNatAux c.toNat h) = true then _ else _
    else _) = _
  rw [if_neg (Nat.not_lt.2 hs), dif_pos (isValidChar_toNat c), ofNatAux_toNat, if_pos h]
  rfl

theorem decodeChar_take {c : Char} {k : Nat} (h : k < (encodeChar c).length) (offset : Nat) :
    decodeChar offset ((encodeChar c).take k) = .ok none := by
  obtain ⟨b, t, bits, he, hl, -⟩ := exists_encodeChar c
  rw [he] at h ⊢
  cases k with
  | zero => rfl
  | succ k =>
    have hk : (t.take k).length < t.length + 1 - 1 := by
      rw [List.length_take]
      exact Nat.lt_of_le_of_lt (Nat.min_le_left _ _) (Nat.lt_of_succ_lt_succ h)
    rw [List.take_succ_cons]
    unfold decodeChar
    dsimp only
    rw [hl]
    dsimp only
    rw [if_pos hk]

/-! ## blocks -/

/-- the beginning of a character, or nothing -/
def IsCut (p : Bytes) (cs : List Char) : Prop :=
  p = [] ∨ ∃ c r k, cs = c :: r ∧ k < (encodeChar c).length ∧ p = (encodeChar c).take k

theorem IsCut.length_le {p : Bytes} {cs : List Char} (h : IsCut p cs) : p.length ≤ 4 := by
  rcases h with rfl | ⟨c, r, k, -, -, rfl⟩
  · exact Nat.zero_le _
  · exact Nat.le_trans (List.length_take_le' _ _) (length_encodeChar_le c)

theorem IsCut.eq_nil {p : Bytes} {cs : List Char} (h : IsCut p cs) (he : p = encodeList cs) :
    p = [] ∧ cs = [] := by
  rcases h with rfl | ⟨c, r, k, rfl, hk, rfl⟩
  · cases cs with
    | nil => exact ⟨rfl, rfl⟩
    | cons c cs =>
      rw [encodeList_cons] at he
      exact absurd (List.append_eq_nil_iff.1 he.symm).1 (encodeChar_ne_nil c)
  · have hl := congrArg List.length he
    rw [encodeList_cons, List.length_append, List.length_take] at hl
    omega

theorem exists_take (cs : List Char) (n : Nat) :
    ∃ as bs p, cs = as ++ bs ∧ (encodeList cs).take n = encodeList as ++ p ∧ IsCut p bs := by
  induction cs generalizing n with
  | nil => exact ⟨[], [], [], rfl, List.take_nil, .inl rfl⟩
  | cons c cs ih =>
    by_cases hn : n < (encodeChar c).length
    · refine ⟨[], c :: cs, (encodeChar c).take n, rfl, ?_, .inr ⟨c, cs, n, rfl, hn, rfl⟩⟩
      rw [encodeList_cons, List.take_append_of_le_length (Nat.le_of_lt hn)]
      rfl
    · obtain ⟨as, bs, p, he, ht, hp⟩ := ih (n - (encodeChar c).length)
      refine ⟨c :: as, bs, p, by rw [he]; rfl, ?_, hp⟩
      rw [encodeList_cons, List.take_append, List.take_of_length_le (Nat.not_lt.1 hn), ht,
        encodeList_cons, List.append_assoc]

theorem decodeBlock_encodeList {as : List Char} (ha : ∀ c ∈ as, isAllowed c = true) {p : Bytes}
    {bs : List Char} (hp : IsCut p bs) (offset : Nat) {fuel : Nat} (hf : as.length < fuel) :
    ∃ behind, decodeBlock offset fuel (encodeList as ++ p) = .ok (as, behind, p) := by
  induction as generalizing offset fuel with
  | nil =>
    have hd : decodeChar offset p = .ok none := by
      rcases hp with rfl | ⟨c, r, k, -, hk, rfl⟩
      · rfl
      · exact decodeChar_take hk offset
    cases fuel with
    | zero => exact absurd hf (Nat.not_lt_zero _)
    | succ fuel =>
      refine ⟨offset, ?_⟩
      show decodeBlock offset (fuel + 1) p = _
      rw [decodeBlock, hd]
  | cons c as ih =>
    cases fuel with
    | zero => exact absurd hf (Nat.not_lt_zero _)
    | succ fuel =>
      obtain ⟨behind, hb⟩ := ih (fun d hd => ha d (List.mem_cons_of_mem _ hd))
        (offset + (encodeChar c).length) (Nat.lt_of_succ_lt_succ hf)
      refine ⟨behind, ?_⟩
      rw [encodeList_cons, List.append_assoc, decodeBlock,
        decodeChar_encodeChar (ha c List.mem_cons_self)]
      simp only [List.drop_left, hb]
      rfl

theorem length_le_encodeList (cs : List Char) : cs.length ≤ (encodeList cs).length := by
  induction cs with
  | nil => exact Nat.zero_le _
  | cons c cs ih =>
    have hc := List.length_pos_iff.2 (encodeChar_ne_nil c)
    rw [encodeList_cons, List.length_append, List.length_cons]
    omega

namespace Characters

/-- the characters of blocks, of which the first goes on where the block before was cut -/
theorem ofBlocks_encodeList {cs : List Char} (h : ∀ c ∈ cs, isAllowed c = true) {carry bs : Bytes}
    (hc : carry.length ≤ 4) (he : carry ++ bs = encodeList cs) (offset : Nat) {fuel : Nat}
    (hf : bs.length < fuel) : ofBlocks offset carry fuel bs = ⟨cs, none⟩ := by
  induction fuel generalizing cs carry bs offset with
  | zero => exact absurd hf (Nat.not_lt_zero _)
  | succ fuel ih =>
    have hroom : 0 < blockSize - carry.length := by
      unfold blockSize
      omega
    generalize hr : blockSize - carry.length = room at hroom
    have hblock : carry ++ bs.take room = (encodeList cs).take (carry.length + room) := by
      rw [← he, List.take_length_add_append]
    -- the block ends inside of one character at most, whose bytes are carried over
    obtain ⟨as, ds, p, hcs, ht, hp⟩ := exists_take cs (carry.length + room)
    have hrest : p ++ bs.drop room = encodeList ds := by
      have ha : encodeList as ++ (p ++ bs.drop room) = encodeList as ++ encodeList ds := by
        rw [← List.append_assoc, ← ht, ← hblock, List.append_assoc, List.take_append_drop, he,
          ← encodeList_append, hcs]
      exact List.append_cancel_left ha
    have hlen : as.length < (encodeList as ++ p).length + 1 := by
      have hl := length_le_encodeList as
      rw [List.length_append]
      omega
    obtain ⟨behind, hd⟩ := decodeBlock_encodeList (fun c hm => h c (by
      rw [hcs]
      exact List.mem_append_left _ hm)) hp offset hlen
    unfold ofBlocks
    simp only [hr, hblock, ht, hd]
    cases hb : bs.drop room with
    | nil =>
      rw [hb, List.append_nil] at hrest
      obtain ⟨rfl, rfl⟩ := hp.eq_nil hrest
      rw [hcs, List.append_nil]
      rfl
    | cons b t =>
      have hless : (b :: t).length < fuel := by
        rw [← hb, List.length_drop]
        have hpos : 0 < bs.length := by
          cases bs with
          | nil => rw [List.drop_nil] at hb; cases hb
          | cons => exact Nat.succ_pos _
        omega
      have hds : ∀ c ∈ ds, isAllowed c = true := fun c hm => h c (by
        rw [hcs]
        exact List.mem_append_right _ hm)
      have ho := ih hds hp.length_le (by rw [← hb]; exact hrest) behind hless
      simp only [ho, hcs]

theorem ofBytes_encodeList {cs : List Char} (h : ∀ c ∈ cs, isAllowed c = true) :
    ofBytes (encodeList cs) = ⟨cs, none⟩ :=
  ofBlocks_encodeList h (Nat.zero_le _) rfl 0 (Nat.lt_succ_self _)

end Characters

end MachineSpec.Yaml
