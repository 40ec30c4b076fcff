import MachineSpec.Proofs.Text.Runs
import MachineSpec.Yaml.FlowScalar
import MachineSpec.Yaml.Quoting

/-!
# Cursors over written text

Where a cursor stands once it has passed over characters, and the gaps between the words of a
scalar.  Written text has no carriage returns and no tabs outside of words, so every line break is
one character.

* `Mark.walk`                      the mark behind characters
* `isLineEnd`                      the line breaks that stand for themselves
* `Cursor.advance_run`, `takeWhile_run`, `skipBreak_lineEnd`   passing over characters
* `gapFrom_pad`, `gapFrom_lineEnd`   gaps
-/

namespace MachineSpec.Yaml

/-- a line break that can stand for itself -/
def isLineEnd (c : Char) : Bool := c = '\n' || c = '\u2028' || c = '\u2029'

theorem isBreak_of_isLineEnd {c : Char} (h : isLineEnd c = true) : isBreak c = true := by
  simp only [isLineEnd, Bool.or_eq_true, decide_eq_true_eq] at h
  rcases h with (rfl | rfl) | rfl <;> rfl

theorem isLineEnd_of_isPrintable {c : Char} (hp : isPrintable c = true) (hb : isBreak c = true) :
    isLineEnd c = true := by
  simp only [isBreak, Bool.or_eq_true, decide_eq_true_eq] at hb
  rcases hb with (((rfl | rfl) | rfl) | rfl) | rfl
  · rfl
  · cases hp
  · cases hp
  · rfl
  · rfl

theorem isBlank_iff {c : Char} : isBlank c = true ↔ c = ' ' ∨ c = '\t' := by
  simp only [isBlank, Bool.or_eq_true, decide_eq_true_eq]

/-- the only blank that is printable is the space -/
theorem isBlank_eq_false {c : Char} (hp : isPrintable c = true) (hs : c ≠ ' ') :
    isBlank c = false := by
  cases hb : isBlank c with
  | false => rfl
  | true =>
    rcases isBlank_iff.1 hb with h | rfl
    · exact absurd h hs
    · cases hp

/-! ## marks -/

namespace Mark

def step (m : Mark) (c : Char) : Mark :=
  if isBreak c then ⟨m.index + Utf8.size c, m.line + 1, 0⟩
  else ⟨m.index + Utf8.size c, m.line, m.column + 1⟩

def walk (m : Mark) (cs : List Char) : Mark := cs.foldl step m

theorem walk_cons (m : Mark) (c : Char) (cs : List Char) :
    m.walk (c :: cs) = (m.step c).walk cs := rfl

theorem walk_append (m : Mark) (cs ds : List Char) : m.walk (cs ++ ds) = (m.walk cs).walk ds :=
  List.foldl_append

theorem step_of_break {c : Char} (h : isBreak c = true) (m : Mark) :
    m.step c = ⟨m.index + Utf8.size c, m.line + 1, 0⟩ := if_pos h

theorem step_of_not_break {c : Char} (h : isBreak c = false) (m : Mark) :
    m.step c = ⟨m.index + Utf8.size c, m.line, m.column + 1⟩ :=
  if_neg (by rw [h]; exact Bool.false_ne_true)

theorem line_le_walk (m : Mark) (cs : List Char) : m.line ≤ (m.walk cs).line := by
  induction cs generalizing m with
  | nil => exact Nat.le_refl _
  | cons c cs ih =>
    refine Nat.le_trans ?_ (ih (m.step c))
    unfold step
    split
    · exact Nat.le_succ _
    · exact Nat.le_refl _

theorem walk_run {cs : List Char} (h : ∀ c ∈ cs, isBreak c = false) (m : Mark) :
    m.walk cs =
      ⟨cs.foldl (fun w c => w + Utf8.size c) m.index, m.line, m.column + cs.length⟩ := by
  induction cs generalizing m with
  | nil => rfl
  | cons c cs ih =>
    rw [walk_cons, step_of_not_break (h c List.mem_cons_self),
      ih fun d hd => h d (List.mem_cons_of_mem _ hd), List.length_cons, List.foldl_cons,
      Nat.add_right_comm, Nat.add_assoc]

theorem column_walk_run {cs : List Char} (h : ∀ c ∈ cs, isBreak c = false) (m : Mark) :
    (m.walk cs).column = m.column + cs.length := by
  rw [walk_run h]

theorem line_walk_run {cs : List Char} (h : ∀ c ∈ cs, isBreak c = false) (m : Mark) :
    (m.walk cs).line = m.line := by
  rw [walk_run h]

end Mark

open Quoting

theorem isBreak_of_mem_pad {n : Nat} {c : Char} (h : c ∈ pad n) : isBreak c = false := by
  rw [List.eq_of_mem_replicate h]
  rfl

theorem length_pad (n : Nat) : (pad n).length = n := List.length_replicate

theorem cons_eq_pad {cs : List Char} (h : ∀ c ∈ cs, isSpace c = true) :
    ' ' :: cs = pad (cs.length + 1) :=
  List.eq_replicate_iff.2 ⟨rfl, fun c hc => by
    rcases List.mem_cons.1 hc with rfl | hc
    · rfl
    · exact of_decide_eq_true (h c hc)⟩

/-- the mark at a column of the line behind a line break -/
theorem Mark.walk_lineEnd_pad {b : Char} (hb : isLineEnd b = true) (m : Mark) (n : Nat) :
    (m.walk (b :: pad n)).column = n ∧ (m.walk (b :: pad n)).line = m.line + 1 := by
  rw [walk_cons, step_of_break (isBreak_of_isLineEnd hb),
    walk_run fun c hc => isBreak_of_mem_pad hc, length_pad]
  exact ⟨Nat.zero_add n, rfl⟩

/-- however a text goes on before it, a line break and spaces lead to a column of a later line -/
theorem Mark.walk_newline (m : Mark) (cs : List Char) (n : Nat) :
    (m.walk (cs ++ '\n' :: pad n)).column = n ∧
      m.line < (m.walk (cs ++ '\n' :: pad n)).line := by
  obtain ⟨hc, hl⟩ := walk_lineEnd_pad (b := '\n') rfl (m.walk cs) n
  rw [walk_append]
  refine ⟨hc, ?_⟩
  rw [hl]
  exact Nat.lt_succ_of_le (line_le_walk m cs)

/-! ## cursors -/

namespace Cursor

theorem need_ok (n : Nat) (cs : List Char) (m : Mark) : need n ⟨cs, m, none⟩ = .ok () := rfl

theorem skip_char {c : Char} (h : isBreak c = false) (cs : List Char) (m : Mark) :
    skip ⟨c :: cs, m, none⟩ = ⟨cs, m.step c, none⟩ := by
  rw [Mark.step_of_not_break h]
  rfl

theorem foldl_size (w : Nat) (cs : List Char) :
    cs.foldl (fun w c => w + Utf8.size c) w =
      w + cs.foldl (fun w c => w + Utf8.size c) 0 := by
  induction cs generalizing w with
  | nil => rfl
  | cons c cs ih =>
    rw [List.foldl_cons, List.foldl_cons, ih (w + Utf8.size c), ih (0 + Utf8.size c)]
    omega

theorem advance_run {s : List Char} (h : ∀ c ∈ s, isBreak c = false) (rest : List Char)
    (m : Mark) : advance s.length ⟨s ++ rest, m, none⟩ = ⟨rest, m.walk s, none⟩ := by
  unfold advance widthOf
  rw [List.take_left, List.drop_left, Mark.walk_run h, foldl_size m.index]

theorem takeWhile_run {p : Char → Bool} {s r : List Char} (hp : ∀ c ∈ s, p c = true)
    (hr : Text.Stops p r) (h : ∀ c ∈ s, isBreak c = false) (m : Mark) :
    takeWhile p ⟨s ++ r, m, none⟩ = .ok (s, ⟨r, m.walk s, none⟩) := by
  unfold takeWhile
  simp only [Text.takeWhile_run hp hr, advance_run h, need_ok]

theorem skipWhile_run {p : Char → Bool} {s r : List Char} (hp : ∀ c ∈ s, p c = true)
    (hr : Text.Stops p r) (h : ∀ c ∈ s, isBreak c = false) (m : Mark) :
    skipWhile p ⟨s ++ r, m, none⟩ = .ok ⟨r, m.walk s, none⟩ := by
  unfold skipWhile
  rw [takeWhile_run hp hr h]
  rfl

theorem skipBreak_lineEnd {b : Char} (h : isLineEnd b = true) (rest : List Char) (m : Mark) :
    skipBreak ⟨b :: rest, m, none⟩ = ⟨rest, m.step b, none⟩ := by
  rw [Mark.step_of_break (isBreak_of_isLineEnd h)]
  simp only [isLineEnd, Bool.or_eq_true, decide_eq_true_eq] at h
  rcases h with (rfl | rfl) | rfl <;> rfl

theorem breakText_lineEnd {b : Char} (h : isLineEnd b = true) (rest : List Char) (m : Mark) :
    breakText ⟨b :: rest, m, none⟩ = [b] := by
  simp only [isLineEnd, Bool.or_eq_true, decide_eq_true_eq] at h
  rcases h with (rfl | rfl) | rfl <;> rfl

theorem isDocumentIndicator_of_column {c : Cursor} (h : c.mark.column ≠ 0) :
    c.isDocumentIndicator = false := by
  unfold isDocumentIndicator
  rw [decide_eq_false h, Bool.false_and]

end Cursor

/-! ## gaps -/

/-- is this a character of the gaps between words -/
def isGap (c : Char) : Bool := isBlank c || isBreak c

theorem isGap_eq_false {c : Char} : isGap c = false ↔ isBlank c = false ∧ isBreak c = false :=
  Bool.or_eq_false_iff

theorem stops_blank {rest : List Char} (h : Text.Stops isGap rest) : Text.Stops isBlank rest :=
  fun c hc => (isGap_eq_false.1 (h c hc)).1

theorem stops_break {rest : List Char} (h : Text.Stops isGap rest) : Text.Stops isBreak rest :=
  fun c hc => (isGap_eq_false.1 (h c hc)).2

variable {refuse : Cursor → Option Fault}

theorem gapFrom_stop {rest : List Char} (h : Text.Stops isGap rest) (g : Gap) (m : Mark) :
    gapFrom refuse g ⟨rest, m, none⟩ = .ok (g, ⟨rest, m, none⟩) := by
  rw [gapFrom]
  split
  · rfl
  · next heq =>
    have hx := isGap_eq_false.1 (h _ (congrArg List.head? heq))
    rw [if_neg (by rw [hx.1]; exact Bool.false_ne_true),
      if_neg (by rw [hx.2]; exact Bool.false_ne_true)]

theorem gapFrom_space (hr : ∀ c : Cursor, c.rest.head? = some ' ' → refuse c = none) (g : Gap)
    (rest : List Char) (m : Mark) :
    gapFrom refuse g ⟨' ' :: rest, m, none⟩ =
      gapFrom refuse (if g.breaksLine then g else { g with blanks := g.blanks ++ [' '] })
        ⟨rest, m.step ' ', none⟩ := by
  have hn : (if g.breaksLine then refuse ⟨' ' :: rest, m, none⟩ else none) = none := by
    rw [hr _ rfl, ite_self]
  rw [gapFrom]
  split
  · next heq => cases heq
  · next heq =>
    cases heq
    rw [if_pos (by rfl), hn]
    rfl

theorem gapFrom_spaces (hr : ∀ c : Cursor, c.rest.head? = some ' ' → refuse c = none) (g : Gap)
    (hg : g.first? = none) (n : Nat) (rest : List Char) (m : Mark) :
    gapFrom refuse g ⟨pad n ++ rest, m, none⟩ =
      gapFrom refuse { g with blanks := g.blanks ++ pad n } ⟨rest, m.walk (pad n), none⟩ := by
  induction n generalizing g m with
  | zero =>
    have hb : g.blanks ++ pad 0 = g.blanks := List.append_nil _
    rw [hb]
    rfl
  | succ n ih =>
    have hp : pad (n + 1) = ' ' :: pad n := List.replicate_succ
    have hl : g.breaksLine = false := by
      rw [Gap.breaksLine, hg]
      rfl
    rw [hp, List.cons_append, gapFrom_space hr, hl, if_neg Bool.false_ne_true,
      ih { g with blanks := g.blanks ++ [' '] } hg, Mark.walk_cons]
    simp only [List.append_assoc, List.cons_append, List.nil_append]

theorem gapFrom_pad (hr : ∀ c : Cursor, c.rest.head? = some ' ' → refuse c = none) (g : Gap)
    (hg : g.first?.isSome = true) (n : Nat) (rest : List Char) (m : Mark) :
    gapFrom refuse g ⟨pad n ++ rest, m, none⟩ =
      gapFrom refuse g ⟨rest, m.walk (pad n), none⟩ := by
  induction n generalizing m with
  | zero => rfl
  | succ n ih =>
    have hp : pad (n + 1) = ' ' :: pad n := List.replicate_succ
    rw [hp, List.cons_append, gapFrom_space hr, Gap.breaksLine, if_pos hg, ih, Mark.walk_cons]

theorem gapFrom_lineEnd {b : Char} (h : isLineEnd b = true) (g : Gap) (rest : List Char)
    (m : Mark) :
    gapFrom refuse g ⟨b :: rest, m, none⟩ =
      gapFrom refuse (g.addBreak [b]) ⟨rest, m.step b, none⟩ := by
  have hb := isBreak_of_isLineEnd h
  have hk : isBlank b = false := by
    simp only [isLineEnd, Bool.or_eq_true, decide_eq_true_eq] at h
    rcases h with (rfl | rfl) | rfl <;> rfl
  rw [gapFrom]
  split
  · next heq => cases heq
  · next heq =>
    cases heq
    rw [if_neg (by rw [hk]; exact Bool.false_ne_true), if_pos hb, Cursor.skipBreak_lineEnd h,
      Cursor.breakText_lineEnd h]
    rfl

theorem gapFrom_breaks {bs : List Char} (hb : ∀ b ∈ bs, isLineEnd b = true) {g : Gap}
    (hg : g.first?.isSome = true) (rest : List Char) (m : Mark) :
    gapFrom refuse g ⟨bs ++ rest, m, none⟩ =
      gapFrom refuse { g with more := g.more ++ bs } ⟨rest, m.walk bs, none⟩ := by
  induction bs generalizing g m with
  | nil =>
    rw [List.append_nil]
    rfl
  | cons b bs ih =>
    have hadd : g.addBreak [b] = { g with more := g.more ++ [b] } := by
      unfold Gap.addBreak
      cases hf : g.first? with
      | none => rw [hf] at hg; cases hg
      | some t => rfl
    rw [List.cons_append, gapFrom_lineEnd (hb b List.mem_cons_self), hadd,
      ih (fun d hd => hb d (List.mem_cons_of_mem _ hd)) (g := { g with more := g.more ++ [b] }) hg,
      Mark.walk_cons]
    simp only [List.append_assoc, List.cons_append, List.nil_append]

end MachineSpec.Yaml
