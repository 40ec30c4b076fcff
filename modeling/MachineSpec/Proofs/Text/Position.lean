import MachineSpec.Proofs.Text.Coding
import MachineSpec.Text.Position
import Mathlib.Data.List.Induction

/-!
# Positions of offsets

Walking over a text counts its lines by the characters that end them, and its columns from the last
such character on.  An offset between two characters is as many bytes away as the characters before
it take, so it is reached by walking over just these; an offset inside a character is reached once
the walk has passed it, and an offset past the end never.

Every character leads to a later position, so positions come in the order of their offsets.

* `walk_start`      where a walk over a text ends
* `advance_append`  an offset behind some characters is reached over them
* `isAt_ofOffset`   an offset between two characters, with its position told by those before it
* `lt_walk`         a walk leads to later positions
* `Faithful`, `ofOffset_faithful`   positions stand for offsets
-/

namespace MachineSpec.Position

open Utf8 (size size_pos encodeList length_encodeList_cons length_encodeList_append
  length_encodeList_singleton)

theorem behind_append_singleton (cs : List Char) (c : Char) :
    behind (cs ++ [c]) = (behind cs).step c := by
  unfold behind step
  rw [List.count_append, List.count_singleton, List.reverse_append]
  by_cases hc : c = '\n'
  · subst hc
    rfl
  · rw [if_neg hc]
    simp [hc]
    omega

/-- a walk from the start of a text -/
theorem walk_start (cs : List Char) : start.walk cs = behind cs := by
  induction cs using List.reverseRecOn with
  | nil => rfl
  | append_singleton cs c ih =>
    rw [walk_append, ih, behind_append_singleton]
    rfl

/-! ## where a walk stops -/

section walks
variable (p : Position) {offset : Nat}

theorem advance_zero (cs : List Char) : p.advance cs 0 = p := by
  cases cs <;> rfl

/-- as many bytes as some characters take lead to the end of these characters, and more bytes lead
on from there -/
theorem advance_append (a b : List Char) (more : Nat) :
    p.advance (a ++ b) ((encodeList a).length + more) = (p.walk a).advance b more := by
  induction a generalizing p with
  | nil =>
    show p.advance b (0 + more) = p.advance b more
    rw [Nat.zero_add]
  | cons c a ih =>
    have hpos := size_pos c
    have hsub : size c + (encodeList a).length + more - size c =
        (encodeList a).length + more := by omega
    rw [List.cons_append, advance, length_encodeList_cons, if_neg (by omega), hsub, ih, walk_cons]

/-- a character is passed by its first byte -/
theorem advance_inside {c : Char} (cs : List Char) (hpos : 0 < offset) (hle : offset ≤ size c) :
    p.advance (c :: cs) offset = p.step c := by
  rw [advance, if_neg (by omega), Nat.sub_eq_zero_of_le hle, advance_zero]

/-- more bytes than there are lead to the end -/
theorem advance_past {cs : List Char} (h : (encodeList cs).length ≤ offset) :
    p.advance cs offset = p.walk cs := by
  obtain ⟨more, rfl⟩ := Nat.exists_eq_add_of_le h
  have happ := advance_append p cs [] more
  rw [List.append_nil] at happ
  exact happ

end walks

/-! ## offsets -/

/-- the position of an offset between two characters -/
theorem ofOffset_append (front rest : List Char) :
    ofOffset (front ++ rest) (encodeList front).length = behind front := by
  have happ := advance_append start front rest 0
  rw [Nat.add_zero, advance_zero, walk_start] at happ
  exact happ

theorem isAt_ofOffset (front rest : List Char) :
    (ofOffset (front ++ rest) (encodeList front).length).IsAt (front ++ rest)
      (encodeList front).length :=
  ⟨front, rest, rfl, rfl, ofOffset_append front rest⟩

/-- an offset in a character, or at its end, is the one at its end -/
theorem ofOffset_inside {front : List Char} {c : Char} {offset : Nat} (rest : List Char)
    (hlt : (encodeList front).length < offset)
    (hle : offset ≤ (encodeList (front ++ [c])).length) :
    ofOffset (front ++ c :: rest) offset = behind (front ++ [c]) := by
  obtain ⟨more, rfl⟩ := Nat.exists_eq_add_of_lt hlt
  rw [length_encodeList_append, length_encodeList_singleton] at hle
  unfold ofOffset
  rw [Nat.add_assoc, advance_append, advance_inside _ _ (by omega) (by omega), walk_start,
    behind_append_singleton]

theorem ofOffset_past {text : List Char} {offset : Nat} (h : (encodeList text).length ≤ offset) :
    ofOffset text offset = behind text := by
  unfold ofOffset
  rw [advance_past _ h, walk_start]

/-! ## reading order -/

theorem lt_iff {p q : Position} :
    p < q ↔ p.line < q.line ∨ p.line = q.line ∧ p.column < q.column := Iff.rfl

theorem lt_irrefl (p : Position) : ¬p < p := by
  rw [lt_iff]
  omega

theorem lt_trans {p q r : Position} (h : p < q) (h' : q < r) : p < r := by
  rw [lt_iff] at h h' ⊢
  omega

theorem lt_step (p : Position) (c : Char) : p < p.step c := by
  unfold step
  split
  · exact .inl (Nat.lt_succ_self _)
  · exact .inr ⟨rfl, Nat.lt_succ_self _⟩

/-- a walk over at least one character leads to a later position -/
theorem lt_walk (p : Position) {cs : List Char} (h : cs ≠ []) : p < p.walk cs := by
  induction cs generalizing p with
  | nil => exact absurd rfl h
  | cons c cs ih =>
    rw [walk_cons]
    by_cases hcs : cs = []
    · subst hcs
      exact lt_step p c
    · exact lt_trans (lt_step p c) (ih (p.step c) hcs)

theorem behind_lt_behind (front : List Char) {more : List Char} (h : more ≠ []) :
    behind front < behind (front ++ more) := by
  rw [← walk_start, ← walk_start, walk_append]
  exact lt_walk _ h

/-- of two offsets between characters the later one has more characters before it -/
theorem exists_of_lt {text front rest front' rest' : List Char} (h : text = front ++ rest)
    (h' : text = front' ++ rest') (hlt : (encodeList front).length < (encodeList front').length) :
    ∃ more, more ≠ [] ∧ front' = front ++ more := by
  have hp : front <+: text := ⟨rest, h.symm⟩
  have hp' : front' <+: text := ⟨rest', h'.symm⟩
  rcases List.prefix_or_prefix_of_prefix hp hp' with ⟨more, rfl⟩ | ⟨more, rfl⟩
  · refine ⟨more, ?_, rfl⟩
    rintro rfl
    rw [List.append_nil] at hlt
    exact Nat.lt_irrefl _ hlt
  · rw [length_encodeList_append] at hlt
    omega

theorem ofOffset_lt_ofOffset {text : List Char} {o o' : Nat} (h : IsBoundary text o)
    (h' : IsBoundary text o') (hlt : o < o') : ofOffset text o < ofOffset text o' := by
  obtain ⟨front, rest, ht, rfl⟩ := h
  obtain ⟨front', rest', ht', rfl⟩ := h'
  obtain ⟨more, hmore, rfl⟩ := exists_of_lt ht ht' hlt
  have hp : ofOffset text (encodeList front).length = behind front := by
    rw [ht, ofOffset_append]
  have hp' : ofOffset text (encodeList (front ++ more)).length = behind (front ++ more) := by
    rw [ht', ofOffset_append]
  rw [hp, hp']
  exact behind_lt_behind front hmore

/-! ## positions stand for offsets -/

/-- positions in a text stand for its offsets -/
structure Faithful (text : List Char) : Prop where
  /-- an offset between two characters counts the lines that end before it, and the characters
  behind the last of these ends -/
  counted (front rest : List Char) : text = front ++ rest →
    ofOffset text (encodeList front).length =
      ⟨1 + front.count '\n', 1 + (front.reverse.takeWhile (· ≠ '\n')).length⟩
  /-- of two offsets between characters the earlier one has the earlier position -/
  ordered (o o' : Nat) : IsBoundary text o → IsBoundary text o' → o < o' →
    ofOffset text o < ofOffset text o'
  /-- and so no two of them have the same one -/
  determined (o o' : Nat) : IsBoundary text o → IsBoundary text o' →
    ofOffset text o = ofOffset text o' → o = o'
  /-- an offset inside a character has the position behind it -/
  inside (front : List Char) (c : Char) (rest : List Char) (o : Nat) :
    text = front ++ c :: rest → (encodeList front).length < o →
      o < (encodeList (front ++ [c])).length →
        ofOffset text o = ofOffset text (encodeList (front ++ [c])).length
  /-- an offset past the end has the position of the end -/
  past (o : Nat) : (encodeList text).length < o →
    ofOffset text o = ofOffset text (encodeList text).length

theorem ofOffset_faithful (text : List Char) : Faithful text where
  counted front rest h := by
    rw [h]
    exact ofOffset_append front rest
  ordered _ _ h h' hlt := ofOffset_lt_ofOffset h h' hlt
  determined o o' h h' heq := by
    rcases Nat.lt_trichotomy o o' with hlt | rfl | hlt
    · exact absurd (heq ▸ ofOffset_lt_ofOffset h h' hlt) (lt_irrefl _)
    · rfl
    · exact absurd (heq ▸ ofOffset_lt_ofOffset h' h hlt) (lt_irrefl _)
  inside front c rest o h hlt hle := by
    have hend : (encodeList front).length < (encodeList (front ++ [c])).length :=
      Nat.lt_trans hlt hle
    rw [h, ofOffset_inside rest hlt (Nat.le_of_lt hle), ofOffset_inside rest hend (Nat.le_refl _)]
  past o h := by
    rw [ofOffset_past (Nat.le_of_lt h), ofOffset_past (Nat.le_refl _)]

/-- the second byte of a letter, between the letter and the end of its line -/
example : ofOffset ['a', '\n', 'é', '\n', 'b'] 3 = ⟨2, 2⟩ := by decide

end MachineSpec.Position
