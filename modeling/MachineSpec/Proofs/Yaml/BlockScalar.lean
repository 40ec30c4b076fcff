import MachineSpec.Proofs.Yaml.Cursor
import MachineSpec.Yaml.BlockScalar

/-!
# Scalars as blocks read back

A text as a block is a row of lines, each with its line breaks behind it.  The header says how far
the lines are indented where the text itself starts with white space, and what becomes of the line
breaks at the end.

* `leadingFrom_breaks`, `leading_known`, `leading_open`   empty lines, then the indentation
* `lines_step`        one line and the breaks behind it
* `chompOf`           what a text says about its end
* `lines_block`       the lines of a text
* `scan_block`        a text as a block
-/

namespace MachineSpec.Yaml.BlockScalar

open Quoting

/-! ## empty lines and indentation -/

section Leading

variable {start : Mark} {margin indent k : Nat} {tail : List Char} {m : Mark}

theorem advance_pad (k : Nat) (rest : List Char) (m : Mark) :
    Cursor.advance k ⟨pad k ++ rest, m, none⟩ = ⟨rest, m.walk (pad k), none⟩ := by
  have ha := Cursor.advance_run (fun c hc => isBreak_of_mem_pad (n := k) hc) rest m
  rwa [length_pad] at ha

theorem indentation_of_stops {cs : List Char} (h : Text.Stops isSpace cs) (indent? : Option Nat)
    (m : Mark) : indentation indent? ⟨cs, m, none⟩ = 0 := by
  have ht : cs.takeWhile (fun c => decide (c = ' ')) = [] := Text.takeWhile_of_stops h
  unfold indentation
  rw [ht]
  cases indent? with
  | none => rfl
  | some n => exact Nat.zero_min _

theorem leadingFrom_break {b : Char} (hb : isLineEnd b = true) (indent? : Option Nat)
    (deepest : Nat) (breaks rest : List Char) (fuel : Nat) (hm : m.column = 0) :
    leadingFrom start margin indent? deepest breaks (fuel + 1) ⟨b :: rest, m, none⟩ =
      leadingFrom start margin indent? deepest (breaks ++ [b]) fuel ⟨rest, m.step b, none⟩ := by
  have hsp : isSpace b = false := by
    simp only [isLineEnd, Bool.or_eq_true, decide_eq_true_eq] at hb
    rcases hb with (rfl | rfl) | rfl <;> rfl
  have htab : b ≠ '\t' := by
    rintro rfl
    cases hb
  have ha : Cursor.advance 0 ⟨b :: rest, m, none⟩ = ⟨b :: rest, m, none⟩ :=
    advance_pad 0 (b :: rest) m
  rw [leadingFrom, indentation_of_stops (Text.stops_cons hsp), ha]
  simp only [Cursor.need_ok, hm, Nat.max_zero, htab, decide_false, Bool.and_false,
    Bool.false_eq_true, if_false, isBreak_of_isLineEnd hb, if_true,
    Cursor.breakText_lineEnd hb, Cursor.skipBreak_lineEnd hb]
  rfl

theorem leadingFrom_breaks (start : Mark) (margin : Nat) {bs : List Char}
    (hb : ∀ b ∈ bs, isLineEnd b = true) (indent? : Option Nat) (deepest : Nat)
    (breaks rest : List Char) (fuel : Nat) (hm : m.column = 0) :
    leadingFrom start margin indent? deepest breaks (bs.length + fuel) ⟨bs ++ rest, m, none⟩ =
      leadingFrom start margin indent? deepest (breaks ++ bs) fuel ⟨rest, m.walk bs, none⟩ ∧
      (m.walk bs).column = 0 := by
  induction bs generalizing breaks m with
  | nil =>
    rw [List.append_nil, List.length_nil, Nat.zero_add]
    exact ⟨rfl, hm⟩
  | cons b bs ih =>
    have hstep : (m.step b).column = 0 := by
      rw [Mark.step_of_break (isBreak_of_isLineEnd (hb b List.mem_cons_self))]
    obtain ⟨hi, hc⟩ := ih (fun d hd => hb d (List.mem_cons_of_mem _ hd)) (breaks ++ [b]) hstep
    rw [List.length_cons, Nat.add_right_comm, List.cons_append,
      leadingFrom_break (hb b List.mem_cons_self) indent? deepest breaks _ _ hm, hi,
      List.append_assoc]
    exact ⟨rfl, hc⟩

theorem leadingFrom_stop {indent? : Option Nat}
    (hi : indentation indent? ⟨pad k ++ tail, m, none⟩ = k) (ht : Text.Stops isBreak tail)
    (htab : (indent?.all fun n => m.column + k < n) = true → tail.head? ≠ some '\t')
    (deepest : Nat) (breaks : List Char) (fuel : Nat) :
    leadingFrom start margin indent? deepest breaks (fuel + 1) ⟨pad k ++ tail, m, none⟩ =
      .ok (breaks, indent?.getD (max 1 (max margin (max deepest (m.column + k)))),
        ⟨tail, m.walk (pad k), none⟩) := by
  have hcol : (m.walk (pad k)).column = m.column + k := by
    rw [Mark.column_walk_run fun c hc => isBreak_of_mem_pad hc, length_pad]
  rw [leadingFrom, hi, advance_pad]
  simp only [Cursor.need_ok, hcol]
  cases tail with
  | nil => rfl
  | cons x r =>
    have hx : isBreak x = false := ht x rfl
    have hins : ((indent?.all fun n => m.column + k < n) && decide (x = '\t')) = false := by
      cases ha : indent?.all fun n => m.column + k < n with
      | false => rfl
      | true => exact decide_eq_false fun hx => htab ha (congrArg some hx)
    simp only [hins, hx]
    rfl

theorem indentation_known (hm : m.column = 0)
    (hk : k = indent ∨ k < indent ∧ Text.Stops isBlank tail) :
    indentation (some indent) ⟨pad k ++ tail, m, none⟩ = k := by
  show min ((pad k ++ tail).takeWhile _).length (indent - m.column) = k
  rw [hm, Nat.sub_zero, List.takeWhile_append_of_pos
    fun c hc => decide_eq_true (List.eq_of_mem_replicate hc), List.length_append, length_pad]
  rcases hk with rfl | ⟨hk, ht⟩
  · omega
  · have hs : Text.Stops (fun c => decide (c = ' ')) tail := fun x hx => by
      have hb := ht x hx
      exact decide_eq_false fun h => by
        rw [h] at hb
        cases hb
    rw [Text.takeWhile_of_stops hs, List.length_nil]
    omega

/-- empty lines, and an indentation that is known: a line goes on at it, or left of it -/
theorem leading_known (start : Mark) (margin : Nat) (hm : m.column = 0) {bs : List Char}
    (hb : ∀ b ∈ bs, isLineEnd b = true)
    (hk : k = indent ∨ k < indent ∧ Text.Stops isBlank tail) (ht : Text.Stops isBreak tail) :
    leading start margin (some indent) ⟨bs ++ (pad k ++ tail), m, none⟩ =
      .ok (bs, indent, ⟨tail, m.walk (bs ++ pad k), none⟩) := by
  obtain ⟨hbs, hcol⟩ := leadingFrom_breaks start margin hb (some indent) 0 [] (pad k ++ tail)
    ((pad k ++ tail).length + 1) hm
  have htab : ((some indent).all fun n => (m.walk bs).column + k < n) = true →
      tail.head? ≠ some '\t' := fun ha htab => by
    rcases hk with rfl | ⟨-, hs⟩
    · rw [hcol] at ha
      exact absurd (of_decide_eq_true ha) (by omega)
    · exact absurd (hs _ htab) (by decide)
  rw [leading]
  show leadingFrom start margin (some indent) 0 [] ((bs ++ (pad k ++ tail)).length + 1) _ = _
  rw [List.length_append, Nat.add_assoc, hbs,
    leadingFrom_stop (indentation_known hcol hk) ht htab, Mark.walk_append]
  rfl

/-- an indentation that is not known is that of the first line -/
theorem leading_open (hm : m.column = 0) (hk : margin < k) (ht : Text.Stops isGap tail) :
    leading start margin none ⟨pad k ++ tail, m, none⟩ =
      .ok ([], k, ⟨tail, m.walk (pad k), none⟩) := by
  have hb := stops_break ht
  have hs : Text.Stops (fun c => decide (c = ' ')) tail := fun x hx => by
    have hx := stops_blank ht x hx
    exact decide_eq_false fun h => by
      rw [h] at hx
      cases hx
  have hi : indentation none ⟨pad k ++ tail, m, none⟩ = k := by
    show ((pad k ++ tail).takeWhile _).length = k
    rw [List.takeWhile_append_of_pos fun c hc => decide_eq_true (List.eq_of_mem_replicate hc),
      Text.takeWhile_of_stops hs, List.append_nil, length_pad]
  have htab : (none.all fun n => m.column + k < n) = true → tail.head? ≠ some '\t' :=
    fun _ htab => absurd (ht _ htab) (by decide)
  have hmax : max 1 (max margin (max 0 (m.column + k))) = k := by omega
  rw [leading, leadingFrom_stop hi hb htab]
  show Except.ok ([], max 1 (max margin (max 0 (m.column + k))), _) = _
  rw [hmax]

end Leading

/-! ## lines -/

section Written

variable {indent : Nat}

theorem blockFrom_line {line : List Char} (h : ∀ c ∈ line, isBreak c = false) (t : List Char) :
    blockFrom indent false (line ++ t) = line ++ blockFrom indent false t := by
  induction line with
  | nil => rfl
  | cons c line ih =>
    rw [List.cons_append, blockFrom, h c List.mem_cons_self, if_neg Bool.false_ne_true,
      ih fun d hd => h d (List.mem_cons_of_mem _ hd)]
    rfl

theorem blockFrom_breaks (indent : Nat) (broken : Bool) {bs : List Char}
    (h : ∀ b ∈ bs, isBreak b = true) (t : List Char) :
    blockFrom indent broken (bs ++ t) = bs ++ blockFrom indent (broken || !bs.isEmpty) t := by
  induction bs generalizing broken with
  | nil => rw [List.isEmpty_nil, Bool.not_true, Bool.or_false]; rfl
  | cons b bs ih =>
    rw [List.cons_append, blockFrom, if_pos (h b List.mem_cons_self),
      ih true fun d hd => h d (List.mem_cons_of_mem _ hd)]
    simp

theorem blockFrom_true {x : Char} (h : isBreak x = false) (t : List Char) :
    blockFrom indent true (x :: t) = pad indent ++ blockFrom indent false (x :: t) := by
  rw [blockFrom, blockFrom, h, if_neg Bool.false_ne_true, if_neg Bool.false_ne_true]
  rfl

theorem length_le_blockFrom (indent : Nat) (broken : Bool) (s : List Char) :
    s.length ≤ (blockFrom indent broken s).length := by
  induction s generalizing broken with
  | nil => exact Nat.zero_le _
  | cons c s ih =>
    rw [blockFrom]
    split
    · exact Nat.succ_le_succ (ih true)
    · have hs := ih false
      rw [List.length_append, List.length_cons, List.length_cons]
      omega

end Written

theorem column_behind_line {b : Char} {bs : List Char} (hb : ∀ c ∈ b :: bs, isLineEnd c = true)
    (line : List Char) (n : Nat) (m : Mark) :
    (m.walk (line ++ (b :: (bs ++ pad n)))).column = n := by
  obtain ⟨a, c, hc⟩ : ∃ a c, b :: bs = a ++ [c] :=
    ⟨_, _, (List.dropLast_concat_getLast (List.cons_ne_nil b bs)).symm⟩
  have hs : line ++ (b :: (bs ++ pad n)) = (line ++ a) ++ (c :: pad n) := by
    rw [← List.cons_append, hc, List.append_assoc, List.append_assoc]
    rfl
  rw [hs, Mark.walk_append, (Mark.walk_lineEnd_pad (hb c (by rw [hc]; simp)) _ n).1]

theorem column_walk_breaks {bs : List Char} (hb : ∀ b ∈ bs, isLineEnd b = true) (k : Nat)
    {m : Mark} (hm : m.column = 0) : (m.walk (bs ++ pad k)).column = k := by
  cases bs with
  | nil =>
    rw [List.nil_append, Mark.column_walk_run fun c hc => isBreak_of_mem_pad hc, length_pad, hm,
      Nat.zero_add]
  | cons b bs => exact column_behind_line hb [] k m

section Lines

variable {start : Mark} {margin indent k : Nat} {tail : List Char} {m : Mark}

theorem lines_stop (start : Mark) (margin : Nat) (tail : List Char) (l : Lines) (fuel : Nat)
    (hm : m.column ≠ indent) :
    lines true start margin indent l fuel ⟨tail, m, none⟩ = .ok (l, ⟨tail, m, none⟩) := by
  cases fuel with
  | zero => rfl
  | succ fuel =>
    rw [lines]
    cases tail with
    | nil => rfl
    | cons x r =>
      show (if m.column = indent then _ else _) = _
      rw [if_neg hm]
      rfl

/-- a line and the breaks behind it -/
theorem lines_step (start : Mark) (margin : Nat) (l : Lines) {x : Char} {line : List Char}
    (hl : ∀ c ∈ x :: line, isBreak c = false) {b : Char} {bs : List Char}
    (hb : ∀ c ∈ b :: bs, isLineEnd c = true)
    (hk : k = indent ∨ k < indent ∧ Text.Stops isBlank tail) (ht : Text.Stops isBreak tail)
    (hm : m.column = indent) (fuel : Nat) :
    lines true start margin indent l (fuel + 1)
        ⟨x :: line ++ (b :: (bs ++ (pad k ++ tail))), m, none⟩ =
      lines true start margin indent
        ⟨l.text ++ l.lastBreak ++ l.empty ++ (x :: line), [b], bs, isBlank x⟩ fuel
        ⟨tail, m.walk (x :: line ++ (b :: (bs ++ pad k))), none⟩ := by
  have hbreak := isBreak_of_isLineEnd (hb b List.mem_cons_self)
  have hrun := Cursor.takeWhile_run (p := fun y => !isBreak y) (s := x :: line)
    (fun c hc => by rw [hl c hc]; rfl)
    (r := b :: (bs ++ (pad k ++ tail))) (Text.stops_cons (by rw [hbreak]; rfl)) hl m
  have hcol : ((m.walk (x :: line)).step b).column = 0 := by rw [Mark.step_of_break hbreak]
  have hlead := leading_known start margin hcol
    (fun c hc => hb c (List.mem_cons_of_mem _ hc)) hk ht
  rw [lines]
  show (if m.column = indent then
    (Cursor.takeWhile _ ⟨x :: line ++ (b :: (bs ++ (pad k ++ tail))), m, none⟩ >>= _) else _) = _
  rw [if_pos hm, hrun]
  show (leading start margin (some indent) (Cursor.skipBreak _) >>= _) = _
  rw [Cursor.skipBreak_lineEnd (hb b List.mem_cons_self), hlead]
  show lines true start margin indent ⟨_, Cursor.breakText _, bs, isBlank x⟩ fuel _ = _
  rw [Cursor.breakText_lineEnd (hb b List.mem_cons_self), Mark.walk_append m]
  rfl

/-- the last line, and the breaks behind it -/
theorem lines_last (start : Mark) (margin : Nat) (l : Lines) {x : Char} {line : List Char}
    (hl : ∀ c ∈ x :: line, isBreak c = false) {b : Char} {bs : List Char}
    (hb : ∀ c ∈ b :: bs, isLineEnd c = true) (hk : k < indent) (ht : Text.Stops isGap tail)
    (hm : m.column = indent) (fuel : Nat) :
    lines true start margin indent l (fuel + 1)
        ⟨x :: line ++ (b :: (bs ++ (pad k ++ tail))), m, none⟩ =
      .ok (⟨l.text ++ l.lastBreak ++ l.empty ++ (x :: line), [b], bs, isBlank x⟩,
        ⟨tail, m.walk (x :: line ++ (b :: (bs ++ pad k))), none⟩) := by
  have hcol : (m.walk (x :: line ++ (b :: (bs ++ pad k)))).column ≠ indent := by
    rw [column_behind_line hb]
    exact Nat.ne_of_lt hk
  exact (lines_step start margin l hl hb (.inr ⟨hk, stops_blank ht⟩) (stops_break ht) hm
    fuel).trans (lines_stop start margin tail _ fuel hcol)

end Lines

/-- what a text says about its end -/
def chompOf (s : List Char) : Chomp :=
  match s.reverse with
  | [] => .strip
  | x :: r => if !isBreak x then .strip else if startsBreak r then .keep else .clip

theorem chompOf_ink (a : List Char) {c : Char} (h : isBreak c = false) :
    chompOf (a ++ [c]) = .strip := by
  rw [chompOf, List.reverse_append]
  show (if !isBreak c then Chomp.strip else _) = _
  rw [h]
  rfl

theorem chompOf_break (a : List Char) {c b : Char} (hc : isBreak c = false)
    (hb : isBreak b = true) : chompOf (a ++ [c] ++ [b]) = .clip := by
  rw [List.append_assoc, chompOf, List.reverse_append]
  show (if !isBreak b then Chomp.strip else if isBreak c then _ else _) = _
  rw [hb, hc]
  rfl

theorem chompOf_two (a : List Char) (c b : Char) : chompOf (a ++ [c, b]) = chompOf [c, b] := by
  rw [chompOf, List.reverse_append]
  rfl

theorem chompOf_breaks (a : List Char) {b c : Char} {bs : List Char}
    (hb : ∀ x ∈ b :: c :: bs, isBreak x = true) : chompOf (a ++ b :: c :: bs) = .keep := by
  induction bs generalizing a b c with
  | nil =>
    have h1 := hb b List.mem_cons_self
    have h2 := hb c (List.mem_cons_of_mem _ List.mem_cons_self)
    rw [chompOf_two]
    show (if !isBreak c then Chomp.strip else if isBreak b then _ else _) = _
    rw [h1, h2]
    rfl
  | cons d bs ih =>
    have hi := ih (a ++ [b]) fun x hx => hb x (List.mem_cons_of_mem _ hx)
    rwa [List.append_assoc] at hi

/-- what stands in front of a line says nothing about the end -/
theorem chompOf_append (a : List Char) {x : Char} (hx : isBreak x = false) (t : List Char) :
    chompOf (a ++ x :: t) = chompOf (x :: t) := by
  rcases List.eq_nil_or_concat t with rfl | ⟨u, b, rfl⟩
  · rw [chompOf_ink a hx]
    exact (chompOf_ink [] hx).symm
  · obtain ⟨v, c, hv⟩ : ∃ v c, x :: u = v ++ [c] :=
      ⟨_, _, (List.dropLast_concat_getLast (List.cons_ne_nil x u)).symm⟩
    have hs : x :: u.concat b = v ++ [c, b] := by
      rw [List.concat_eq_append, ← List.cons_append, hv, List.append_assoc]
      rfl
    rw [hs, ← List.append_assoc, chompOf_two, chompOf_two]

theorem chompOf_line {x : Char} {line : List Char} (hl : ∀ c ∈ x :: line, isBreak c = false) :
    chompOf (x :: line) = .strip := by
  obtain ⟨u, c, hu⟩ : ∃ u c, x :: line = u ++ [c] :=
    ⟨_, _, (List.dropLast_concat_getLast (List.cons_ne_nil x line)).symm⟩
  rw [hu, chompOf_ink u (hl c (by rw [hu]; simp))]

/-- the breaks behind the last line are all part of the text -/
theorem chomped_broken {x b : Char} {line bs : List Char} (hl : ∀ c ∈ x :: line, isBreak c = false)
    (hb : ∀ c ∈ b :: bs, isLineEnd c = true) (text : List Char) (leadsBlank : Bool) :
    Lines.chomped ⟨text, [b], bs, leadsBlank⟩ (chompOf (x :: line ++ b :: bs)) =
      text ++ b :: bs := by
  cases bs with
  | nil =>
    obtain ⟨u, c, hu⟩ : ∃ u c, x :: line = u ++ [c] :=
      ⟨_, _, (List.dropLast_concat_getLast (List.cons_ne_nil x line)).symm⟩
    have hc : isBreak c = false := hl c (by rw [hu]; simp)
    rw [hu, chompOf_break u hc (isBreak_of_isLineEnd (hb b List.mem_cons_self))]
    rfl
  | cons d bs =>
    rw [chompOf_breaks _ fun c hc => isBreak_of_isLineEnd (hb c hc)]
    simp only [Lines.chomped, List.append_assoc, List.cons_append, List.nil_append]

/-- a text that starts with a line: its lines, and the breaks behind them -/
inductive Lined : List Char → Prop where
  | last {x : Char} {line : List Char} (hl : ∀ c ∈ x :: line, isBreak c = false) :
    Lined (x :: line)
  | broken {x b : Char} {line bs : List Char} (hl : ∀ c ∈ x :: line, isBreak c = false)
    (hb : ∀ c ∈ b :: bs, isLineEnd c = true) : Lined (x :: line ++ b :: bs)
  | more {x b y : Char} {line bs t : List Char} (hl : ∀ c ∈ x :: line, isBreak c = false)
    (hb : ∀ c ∈ b :: bs, isLineEnd c = true) (hy : isBreak y = false) (ht : Lined (y :: t)) :
    Lined (x :: line ++ (b :: bs ++ y :: t))

theorem lined_of_printable {x : Char} {t : List Char} (hx : isBreak x = false)
    (hp : ∀ c ∈ x :: t, isPrintable c = true) : Lined (x :: t) := by
  induction hn : t.length using Nat.strongRecOn generalizing x t with
  | _ n ih =>
    obtain ⟨line, r, rfl, hline, hstop⟩ := Text.exists_run (fun c => !isBreak c) t
    have hl : ∀ c ∈ x :: line, isBreak c = false := fun c hc => by
      rcases List.mem_cons.1 hc with rfl | hc
      · exact hx
      · simpa using hline c hc
    cases r with
    | nil =>
      rw [List.append_nil]
      exact .last hl
    | cons b r =>
      obtain ⟨bs, tail, rfl, hbs, htail⟩ := Text.exists_run isBreak r
      have hb : ∀ d ∈ b :: bs, isLineEnd d = true := fun d hd => by
        refine isLineEnd_of_isPrintable (hp d ?_) ?_
        · exact List.mem_cons_of_mem _ (List.mem_append_right _
            (List.mem_append.2 (.inl hd : d ∈ b :: bs ∨ d ∈ tail)))
        · rcases List.mem_cons.1 hd with rfl | hd
          · simpa using hstop d rfl
          · exact hbs d hd
      cases tail with
      | nil =>
        rw [List.append_nil]
        exact .broken hl hb
      | cons y t =>
        have hlt : t.length < n := by
          simp only [List.length_append, List.length_cons] at hn
          omega
        have hpt : ∀ c ∈ y :: t, isPrintable c = true := fun c hc => by
          refine hp c (List.mem_cons_of_mem _ (List.mem_append_right _ (List.mem_cons_of_mem _ ?_)))
          exact List.mem_append_right _ hc
        exact .more hl hb (htail y rfl) (ih t.length hlt (htail y rfl) hpt rfl)

section Text

variable {start : Mark} {margin indent n : Nat} {rest : List Char}

theorem blockFrom_last {x : Char} {line : List Char} (hl : ∀ c ∈ x :: line, isBreak c = false)
    (r : List Char) :
    blockFrom indent false (x :: line) ++ r = x :: line ++ ('\n' :: ([] ++ r)) := by
  rw [← List.append_nil (x :: line), blockFrom_line hl, List.append_nil, List.append_assoc]
  rfl

theorem blockFrom_broken {x b : Char} {line bs : List Char}
    (hl : ∀ c ∈ x :: line, isBreak c = false) (hb : ∀ c ∈ b :: bs, isLineEnd c = true)
    (r : List Char) :
    blockFrom indent false (x :: line ++ b :: bs) ++ r = x :: line ++ (b :: (bs ++ r)) := by
  have hbs := blockFrom_breaks indent false (fun c hc => isBreak_of_isLineEnd (hb c hc)) []
  rw [blockFrom_line hl, ← List.append_nil (b :: bs), hbs, List.append_assoc, List.append_assoc]
  rfl

theorem blockFrom_more {x b y : Char} {line bs t : List Char}
    (hl : ∀ c ∈ x :: line, isBreak c = false) (hb : ∀ c ∈ b :: bs, isLineEnd c = true)
    (hy : isBreak y = false) (r : List Char) :
    blockFrom indent false (x :: line ++ (b :: bs ++ y :: t)) ++ r =
      x :: line ++ (b :: (bs ++ (pad indent ++ (blockFrom indent false (y :: t) ++ r)))) := by
  have hbs := blockFrom_breaks indent false (fun c hc => isBreak_of_isLineEnd (hb c hc)) (y :: t)
  rw [blockFrom_line hl, hbs, List.isEmpty_cons, Bool.not_false, Bool.or_true, blockFrom_true hy]
  simp only [List.append_assoc, List.cons_append]

theorem stops_blockFrom (indent : Nat) {y : Char} (hy : isBreak y = false) (t r : List Char) :
    Text.Stops isBreak (blockFrom indent false (y :: t) ++ r) := by
  rw [blockFrom, hy, if_neg Bool.false_ne_true]
  exact Text.stops_cons hy

/-- the lines of a text are read back -/
theorem lines_block (start : Mark) (margin : Nat) (hn : n < indent) (hr : Text.Stops isGap rest)
    {s : List Char} (hs : Lined s) (l : Lines) {fuel : Nat} (hf : s.length ≤ fuel) {m : Mark}
    (hm : m.column = indent) :
    ∃ l', lines true start margin indent l fuel
        ⟨blockFrom indent false s ++ (pad n ++ rest), m, none⟩ =
      .ok (l', ⟨rest, m.walk (blockFrom indent false s ++ pad n), none⟩) ∧
      l'.chomped (chompOf s) = l.text ++ l.lastBreak ++ l.empty ++ s := by
  induction hs generalizing l fuel m with
  | last hl =>
    rename_i x line
    obtain ⟨fuel, rfl⟩ := Nat.exists_eq_succ_of_ne_zero (Nat.ne_zero_of_lt hf)
    have hb : ∀ c ∈ ['\n'], isLineEnd c = true := List.forall_mem_singleton.2 rfl
    refine ⟨⟨l.text ++ l.lastBreak ++ l.empty ++ (x :: line), ['\n'], [], isBlank x⟩, ?_, ?_⟩
    · rw [blockFrom_last hl, blockFrom_last hl]
      exact lines_last start margin l hl hb hn hr hm fuel
    · rw [chompOf_line hl]
      rfl
  | broken hl hb =>
    rename_i x b line bs
    obtain ⟨fuel, rfl⟩ := Nat.exists_eq_succ_of_ne_zero (Nat.ne_zero_of_lt hf)
    refine ⟨⟨l.text ++ l.lastBreak ++ l.empty ++ (x :: line), [b], bs, isBlank x⟩, ?_, ?_⟩
    · rw [blockFrom_broken hl hb, blockFrom_broken hl hb]
      exact lines_last start margin l hl hb hn hr hm fuel
    · rw [chomped_broken hl hb, List.append_assoc]
  | more hl hb hy ht ih =>
    rename_i x b y line bs t
    obtain ⟨fuel, rfl⟩ := Nat.exists_eq_succ_of_ne_zero (Nat.ne_zero_of_lt hf)
    have hlen : (y :: t).length ≤ fuel := by
      simp only [List.length_append, List.length_cons] at hf ⊢
      omega
    obtain ⟨l', hlines, hchomp⟩ :=
      ih ⟨l.text ++ l.lastBreak ++ l.empty ++ (x :: line), [b], bs, isBlank x⟩ hlen
        (column_behind_line hb (x :: line) indent m)
    refine ⟨l', ?_, ?_⟩
    · have hs := lines_step start margin l hl hb (.inl rfl)
        (stops_blockFrom indent hy t (pad n ++ rest)) hm fuel
      rw [blockFrom_more hl hb hy, blockFrom_more hl hb hy, hs, hlines, ← Mark.walk_append]
      simp only [List.append_assoc, List.cons_append]
    · have hs : x :: line ++ (b :: bs ++ y :: t) = x :: line ++ b :: bs ++ y :: t :=
        (List.append_assoc _ _ _).symm
      rw [hs, chompOf_append _ hy, hchomp]
      simp only [List.append_assoc, List.cons_append, List.nil_append]

end Text

/-! ## headers -/

/-- does a text start with white space, so that its indentation has to be said -/
def isIndented (s : List Char) : Bool := s.head?.any fun c => isSpace c || isBreak c

def signOf : Chomp → List Char
  | .strip => ['-']
  | .clip => []
  | .keep => ['+']

theorem chomping_eq (s : List Char) : chomping s = signOf (chompOf s) := by
  unfold chomping chompOf
  cases s.reverse with
  | nil => rfl
  | cons x r =>
    show (if !isBreak x then _ else _) = signOf (if !isBreak x then _ else _)
    split
    · rfl
    split
    · rfl
    · rfl

theorem header_sign (start : Mark) (indented : Bool) (chomp : Chomp) (rest : List Char)
    (m : Mark) :
    header start ⟨(if indented then ['2'] else []) ++ signOf chomp ++ '\n' :: rest, m, none⟩ =
      .ok (⟨chomp, if indented then some 2 else none⟩,
        ⟨'\n' :: rest, m.walk ((if indented then ['2'] else []) ++ signOf chomp), none⟩) := by
  cases indented with
  | false => cases chomp <;> rfl
  | true => cases chomp <;> rfl

theorem headerEnd_newline (start : Mark) (rest : List Char) (m : Mark) :
    headerEnd start ⟨'\n' :: rest, m, none⟩ = .ok ⟨rest, m.step '\n', none⟩ := rfl

def opening (s : List Char) : List Char :=
  '|' :: ((if isIndented s then ['2'] else []) ++ signOf (chompOf s) ++ ['\n'])

theorem block_eq (indent : Nat) (s : List Char) :
    block indent s = opening s ++ blockFrom indent true s := by
  rw [block, chomping_eq, opening]
  simp only [List.cons_append, List.append_assoc, List.nil_append]
  rfl

theorem column_opening (s : List Char) (m : Mark) : (m.walk (opening s)).column = 0 :=
  (Mark.walk_newline m ('|' :: ((if isIndented s then ['2'] else []) ++ signOf (chompOf s))) 0).1

/-- a block is read once its header says how its lines are indented -/
theorem scan_opening {margin indent : Nat} {s B : List Char} {m : Mark} {empty : List Char}
    {d e : Cursor} {l : Lines}
    (hlead : leading m margin (if isIndented s then some (margin - 1 + 2) else none)
      ⟨B, m.walk (opening s), none⟩ = .ok (empty, indent, d))
    (hlines : lines true m margin indent { empty } (d.rest.length + 1) d = .ok (l, e)) :
    scan true margin ⟨opening s ++ B, m, none⟩ = .ok (l.chomped (chompOf s), e) := by
  let sign := (if isIndented s then ['2'] else []) ++ signOf (chompOf s)
  have hskip : Cursor.skip ⟨opening s ++ B, m, none⟩ = ⟨sign ++ '\n' :: B, m.step '|', none⟩ := by
    have hs : opening s ++ B = '|' :: (sign ++ '\n' :: B) := by
      rw [opening, List.cons_append, List.append_assoc]
      rfl
    rw [hs]
    exact Cursor.skip_char rfl _ m
  have hmark : ((m.step '|').walk sign).step '\n' = m.walk (opening s) :=
    (Mark.walk_append (m.step '|') sign ['\n']).symm
  have hheader : header m ⟨sign ++ '\n' :: B, m.step '|', none⟩ = _ := header_sign m _ _ B _
  have hhint : (if isIndented s then some 2 else none).map (fun n => margin - 1 + n) =
      if isIndented s then some (margin - 1 + 2) else none := by
    cases isIndented s with
    | true => rfl
    | false => rfl
  rw [scan, hskip]
  simp only [hheader, headerEnd_newline, hhint, bind, Except.bind]
  rw [hmark, hlead]
  simp only [hlines]
  rfl

theorem chompOf_all_breaks {bs : List Char} (hb : ∀ b ∈ bs, isBreak b = true) (hne : bs ≠ []) :
    chompOf bs = .keep := by
  cases bs with
  | nil => exact absurd rfl hne
  | cons b bs =>
    cases bs with
    | nil =>
      show (if !isBreak b then Chomp.strip else _) = _
      rw [hb b List.mem_cons_self]
      rfl
    | cons c bs => exact chompOf_breaks [] hb

theorem isIndented_breaks {bs : List Char} (hb : ∀ b ∈ bs, isBreak b = true) (hne : bs ≠ [])
    (t : List Char) : isIndented (bs ++ t) = true := by
  obtain ⟨b, r, rfl⟩ := List.exists_cons_of_ne_nil hne
  show (isSpace b || isBreak b) = true
  rw [hb b List.mem_cons_self, Bool.or_true]

theorem block_breaks (indent : Nat) {bs : List Char} (hb : ∀ b ∈ bs, isBreak b = true)
    (t r : List Char) :
    block indent (bs ++ t) ++ r = opening (bs ++ t) ++ (bs ++ (blockFrom indent true t ++ r)) := by
  rw [block_eq, List.append_assoc, blockFrom_breaks indent true hb, List.append_assoc]
  rfl

section Scan

variable {margin n : Nat} {rest bs t : List Char} {x : Char} {m : Mark}

theorem scan_breaks (hn : n ≤ margin) (hm : 0 < margin) (hr : Text.Stops isGap rest)
    (hb : ∀ b ∈ bs, isLineEnd b = true) (hne : bs ≠ []) (m : Mark) :
    scan true margin ⟨opening bs ++ (bs ++ (pad n ++ rest)), m, none⟩ =
      .ok (bs, ⟨rest, m.walk (opening bs ++ (bs ++ pad n)), none⟩) := by
  have hbreak : ∀ b ∈ bs, isBreak b = true := fun b h => isBreak_of_isLineEnd (hb b h)
  have hcol := column_opening bs m
  have hi : isIndented bs = true := List.append_nil bs ▸ isIndented_breaks hbreak hne []
  have hlead : leading m margin (if isIndented bs then some (margin - 1 + 2) else none)
      ⟨bs ++ (pad n ++ rest), m.walk (opening bs), none⟩ =
      .ok (bs, margin + 1, ⟨rest, (m.walk (opening bs)).walk (bs ++ pad n), none⟩) := by
    rw [if_pos hi, show margin - 1 + 2 = margin + 1 by omega]
    exact leading_known m margin hcol hb (.inr ⟨Nat.lt_succ_of_le hn, stops_blank hr⟩)
      (stops_break hr)
  have hleft : ((m.walk (opening bs)).walk (bs ++ pad n)).column ≠ margin + 1 := by
    rw [column_walk_breaks hb n hcol]
    omega
  have hlines := lines_stop m margin rest { empty := bs } (rest.length + 1) hleft
  rw [scan_opening hlead hlines, chompOf_all_breaks hbreak hne, ← Mark.walk_append]
  rfl

/-- the indentation of a text with a line is said, or it is that of the line -/
theorem leading_block (hm : 0 < margin) (hb : ∀ b ∈ bs, isLineEnd b = true)
    (hx : isBreak x = false) (hp : isPrintable x = true) {m' : Mark} (hcol : m'.column = 0)
    (r : List Char) :
    leading m margin (if isIndented (bs ++ x :: t) then some (margin - 1 + 2) else none)
        ⟨bs ++ (pad (margin + 1) ++ x :: r), m', none⟩ =
      .ok (bs, margin + 1, ⟨x :: r, m'.walk (bs ++ pad (margin + 1)), none⟩) := by
  cases hi : isIndented (bs ++ x :: t) with
  | true =>
    rw [if_pos rfl, show margin - 1 + 2 = margin + 1 by omega]
    exact leading_known m margin hcol hb (.inl rfl) (Text.stops_cons hx)
  | false =>
    -- no empty line comes first, and the first line starts with ink
    obtain rfl : bs = [] := Classical.byContradiction fun hne => by
      rw [isIndented_breaks (fun b h => isBreak_of_isLineEnd (hb b h)) hne] at hi
      cases hi
    have hsp : x ≠ ' ' := by
      rintro rfl
      exact absurd (hi : isIndented (' ' :: t) = false) Bool.noConfusion
    rw [if_neg Bool.false_ne_true]
    exact leading_open hcol (Nat.lt_succ_self margin)
      (Text.stops_cons (isGap_eq_false.2 ⟨isBlank_eq_false hp hsp, hx⟩))

theorem scan_lines (hn : n ≤ margin) (hm : 0 < margin) (hr : Text.Stops isGap rest)
    (hb : ∀ b ∈ bs, isLineEnd b = true) (hx : isBreak x = false)
    (hp : ∀ c ∈ x :: t, isPrintable c = true) (m : Mark) :
    scan true margin ⟨opening (bs ++ x :: t) ++
        (bs ++ (blockFrom (margin + 1) true (x :: t) ++ (pad n ++ rest))), m, none⟩ =
      .ok (bs ++ x :: t, ⟨rest, m.walk (opening (bs ++ x :: t) ++
        (bs ++ (blockFrom (margin + 1) true (x :: t) ++ pad n))), none⟩) := by
  let text := blockFrom (margin + 1) false (x :: t) ++ (pad n ++ rest)
  have hcol := column_opening (bs ++ x :: t) m
  obtain ⟨r, hr'⟩ : ∃ r, text = x :: r := by
    show ∃ r, blockFrom (margin + 1) false (x :: t) ++ (pad n ++ rest) = x :: r
    rw [blockFrom, hx, if_neg Bool.false_ne_true]
    exact ⟨_, rfl⟩
  have hlead := leading_block (m := m) (t := t) hm hb hx (hp x List.mem_cons_self) hcol r
  rw [← hr'] at hlead
  have hlen : (x :: t).length ≤ text.length + 1 := by
    have hl := length_le_blockFrom (margin + 1) false (x :: t)
    show (x :: t).length ≤ (blockFrom (margin + 1) false (x :: t) ++ (pad n ++ rest)).length + 1
    rw [List.length_append]
    omega
  obtain ⟨l, hlines, hchomp⟩ := lines_block m margin (Nat.lt_succ_of_le hn) hr
    (lined_of_printable hx hp) { empty := bs } hlen (column_walk_breaks hb (margin + 1) hcol)
  rw [blockFrom_true hx, List.append_assoc, List.append_assoc, scan_opening hlead hlines,
    chompOf_append _ hx, hchomp, Mark.walk_append m, ← Mark.walk_append, List.append_assoc bs]
  rfl

/-- a text as a block reads back -/
theorem scan_block (hn : n ≤ margin) (hm : 0 < margin) (hr : Text.Stops isGap rest)
    {s : List Char} (hs : canBeBlock s = true) (hne : s ≠ []) (m : Mark) :
    scan true margin ⟨block (margin + 1) s ++ (pad n ++ rest), m, none⟩ =
      .ok (s, ⟨rest, m.walk (block (margin + 1) s ++ pad n), none⟩) := by
  have hp : ∀ c ∈ s, isPrintable c = true := by
    simp only [canBeBlock, Bool.and_eq_true, List.all_eq_true] at hs
    exact hs.1.1
  obtain ⟨bs, t, rfl, hbs, ht⟩ := Text.exists_run isBreak s
  have hb : ∀ c ∈ bs, isLineEnd c = true := fun c hc =>
    isLineEnd_of_isPrintable (hp c (List.mem_append_left _ hc)) (hbs c hc)
  rw [block_breaks _ hbs, block_breaks _ hbs]
  cases t with
  | nil =>
    rw [List.append_nil] at hne ⊢
    exact scan_breaks hn hm hr hb hne m
  | cons x t =>
    exact scan_lines hn hm hr hb (ht x rfl) (fun c hc => hp c (List.mem_append_right _ hc)) m

end Scan

theorem column_walk_blockFrom (indent : Nat) (broken : Bool) (s : List Char) {m : Mark}
    (hm : broken = true → m.column = 0) :
    (m.walk (blockFrom indent broken s)).column = 0 := by
  induction s generalizing broken m with
  | nil =>
    cases broken with
    | true => exact hm rfl
    | false => exact (Mark.walk_newline m [] 0).1
  | cons c s ih =>
    rw [blockFrom]
    split
    · next hc =>
      rw [Mark.walk_cons]
      exact ih true fun _ => by rw [Mark.step_of_break hc]
    · rw [Mark.walk_append, Mark.walk_cons]
      exact ih false fun h => by cases h

theorem column_walk_block (indent n : Nat) (s : List Char) (m : Mark) :
    (m.walk (block indent s ++ pad n)).column = n := by
  rw [block_eq, Mark.walk_append, Mark.walk_append,
    Mark.column_walk_run fun c hc => isBreak_of_mem_pad hc,
    column_walk_blockFrom indent true s fun _ => column_opening s m, length_pad, Nat.zero_add]

end MachineSpec.Yaml.BlockScalar
