import MachineSpec.Proofs.Yaml.Cursor

/-!
# Scalars without quotes read back

A text that can be plain is read word by word up to the end of its line, where a line follows that
starts left of the margin.  A key is read up to its colon.

* `IsLine`             what a text without quotes looks like from any word of it on
* `isLine_of_canBePlain`
* `Plain.scan_line`    a plain text at the end of a line
* `Plain.scan_key`     a word in front of a colon
-/

namespace MachineSpec.Yaml

open Quoting

/-- a row of words: no colon of it stands before a blank, and no number sign behind one -/
structure IsLine (s : List Char) : Prop where
  unbroken : ∀ c ∈ s, isBreak c = false
  blanks : ∀ c ∈ s, isBlank c = true → c = ' '
  colon : ∀ a r, s = a ++ ':' :: r → startsBlank r = false
  hash : ∀ a r, s ≠ a ++ ' ' :: '#' :: r
  last : s.getLast? ≠ some ' '

theorem IsLine.suffix {a s : List Char} (h : IsLine (a ++ s)) : IsLine s where
  unbroken c hc := h.unbroken c (List.mem_append_right _ hc)
  blanks c hc := h.blanks c (List.mem_append_right _ hc)
  colon b r he := h.colon (a ++ b) r (by rw [he, List.append_assoc])
  hash b r he := h.hash (a ++ b) r (by rw [he, List.append_assoc])
  last he := h.last (by rw [List.getLast?_append, he]; rfl)

/-! ## texts that can be plain -/

theorem hasIndicator_append (a : List Char) {s : List Char} (h : hasIndicator s = true) :
    hasIndicator (a ++ s) = true := by
  induction a with
  | nil => exact h
  | cons x a ih =>
    rw [List.cons_append]
    cases has : a ++ s with
    | nil =>
      rw [has] at ih
      cases ih
    | cons y r =>
      rw [has] at ih
      rw [hasIndicator, ih, Bool.or_true]

theorem hasIndicator_colon (x : Char) {r : List Char} (h : startsBlank r = true) :
    hasIndicator (x :: ':' :: r) = true := by
  rw [hasIndicator, h]
  rfl

theorem hasIndicator_hash (r : List Char) : hasIndicator (' ' :: '#' :: r) = true := by
  rw [hasIndicator]
  simp [isBlank]

theorem canBePlain_iff {s : List Char} :
    canBePlain s = true ↔ (∀ c ∈ s, isPrintable c = true) ∧ (∀ c ∈ s, isBreak c = false) ∧
      s.head? ≠ some ' ' ∧ s.getLast? ≠ some ' ' ∧ startsIndicator s = false ∧
      hasIndicator s = false ∧ startsDocumentIndicator s = false := by
  have hany : ∀ o : Option Char, o.any isSpace = false ↔ o ≠ some ' ' := fun o => by
    cases o with
    | none => simp
    | some c => simp [isSpace]
  simp only [canBePlain, Bool.and_eq_true, Bool.not_eq_true', List.all_eq_true,
    List.any_eq_false, hany, Bool.not_eq_true, and_assoc]

theorem isLine_of_canBePlain {s : List Char} (h : canBePlain s = true) : IsLine s := by
  obtain ⟨hp, hb, -, hl, hs, hi, -⟩ := canBePlain_iff.1 h
  refine ⟨hb, fun c hc hk => ?_, fun a r he => ?_, fun a r he => ?_, hl⟩
  · rcases isBlank_iff.1 hk with hsp | rfl
    · exact hsp
    · exact absurd (hp _ hc) (by decide)
  · -- a colon in front is an indicator of its own, any other is found beside its neighbour
    cases hr : startsBlank r with
    | false => rfl
    | true =>
      rcases List.eq_nil_or_concat a with rfl | ⟨a, x, rfl⟩
      · rw [he] at hs
        simp [startsIndicator, openIndicators, hr] at hs
      · rw [he, List.concat_eq_append, List.append_assoc] at hi
        have hx := hasIndicator_append a (hasIndicator_colon x hr)
        rw [List.singleton_append, hx] at hi
        cases hi
  · rw [he, hasIndicator_append a (hasIndicator_hash r)] at hi
    cases hi

def isWordChar (c : Char) : Bool := c.isAlphanum || c = '_'

theorem toNat_of_isWordChar {c : Char} (h : isWordChar c = true) :
    48 ≤ c.toNat ∧ c.toNat ≤ 122 := by
  change (((decide (65 ≤ c.val ∧ c.val ≤ 90) || (decide (97 ≤ c.val) && decide (c.val ≤ 122))) ||
    (decide (48 ≤ c.val) && decide (c.val ≤ 57))) || decide (c = '_')) = true at h
  simp only [Bool.or_eq_true, Bool.and_eq_true, decide_eq_true_eq, UInt32.le_iff_toNat_le] at h
  rcases h with ((h | h) | h) | rfl
  · exact ⟨Nat.le_trans (by decide) h.1, Nat.le_trans h.2 (by decide)⟩
  · exact ⟨Nat.le_trans (by decide) h.1, Nat.le_trans h.2 (by decide)⟩
  · exact ⟨h.1, Nat.le_trans h.2 (by decide)⟩
  · decide

theorem isPrintable_of_isWordChar {c : Char} (h : isWordChar c = true) : isPrintable c = true := by
  have hn := toNat_of_isWordChar h
  simp only [isPrintable, Bool.or_eq_true, Bool.and_eq_true, decide_eq_true_eq]
  omega

theorem not_mem_of_isWordChar {c : Char} (h : isWordChar c = true) :
    c ∉ ['\n', '\r', '\u0085', '\u2028', '\u2029', ' ', '\t', '-', '?', ':', '.', '\uFEFF'] ++
      indicators := by
  intro hm
  have hn := toNat_of_isWordChar h
  simp only [indicators, List.cons_append, List.nil_append, List.mem_cons, List.not_mem_nil,
    or_false] at hm
  rcases hm with rfl | rfl | rfl | rfl | rfl | rfl | rfl | rfl | rfl | rfl | rfl | rfl | rfl |
    rfl | rfl | rfl | rfl | rfl | rfl | rfl | rfl | rfl | rfl | rfl | rfl | rfl | rfl | rfl <;>
    exact absurd h (by decide)

theorem isGap_of_isWordChar {c : Char} (h : isWordChar c = true) : isGap c = false := by
  have hm := not_mem_of_isWordChar h
  simp only [indicators, List.cons_append, List.nil_append, List.mem_cons, List.not_mem_nil,
    or_false, not_or] at hm
  simp only [isGap, isBlank, isBreak, hm, decide_false, Bool.or_false]

theorem hasIndicator_of_word {s : List Char} (hw : ∀ c ∈ s, isWordChar c = true) :
    hasIndicator s = false := by
  induction s with
  | nil => rfl
  | cons x s ih =>
    cases s with
    | nil => rfl
    | cons y r =>
      have hy := not_mem_of_isWordChar (hw y (List.mem_cons_of_mem _ List.mem_cons_self))
      have h1 : y ≠ ':' := fun he => hy (by rw [he]; decide)
      have h2 : y ≠ '#' := fun he => hy (by rw [he]; decide)
      rw [hasIndicator, ih fun c hc => hw c (List.mem_cons_of_mem _ hc), decide_eq_false h1,
        decide_eq_false h2, Bool.false_and, Bool.and_false]
      rfl

theorem canBePlain_of_word {s : List Char} (hw : ∀ c ∈ s, isWordChar c = true) :
    canBePlain s = true := by
  have hsp : ∀ c ∈ s, c ≠ ' ' := fun c hc he =>
    not_mem_of_isWordChar (hw c hc) (by rw [he]; decide)
  refine canBePlain_iff.2 ⟨fun c hc => isPrintable_of_isWordChar (hw c hc), fun c hc => ?_,
    fun h => hsp _ (List.mem_of_mem_head? h) rfl, fun h => hsp _ (List.mem_of_getLast? h) rfl,
    ?_, hasIndicator_of_word hw, ?_⟩
  · exact (isGap_eq_false.1 (isGap_of_isWordChar (hw c hc))).2
  · cases s with
    | nil => rfl
    | cons x r =>
      have hx := not_mem_of_isWordChar (hw x List.mem_cons_self)
      have hi : indicators.contains x = false := by
        rw [← Bool.not_eq_true, List.contains_iff_mem]
        exact fun hm => hx (List.mem_append_right _ hm)
      have ho : openIndicators.contains x = false := by
        rw [← Bool.not_eq_true, List.contains_iff_mem]
        intro hm
        simp only [openIndicators, List.mem_cons, List.not_mem_nil, or_false] at hm
        rcases hm with rfl | rfl | rfl <;> exact hx (by decide)
      rw [startsIndicator, hi, ho]
      rfl
  · unfold startsDocumentIndicator
    split
    · exact absurd (by decide) (not_mem_of_isWordChar (hw '-' List.mem_cons_self))
    · exact absurd (by decide) (not_mem_of_isWordChar (hw '.' List.mem_cons_self))
    · rfl

/-! ## words -/

/-- the part of a text without spaces in front, the spaces behind it, and what follows -/
theorem exists_word (s : List Char) :
    ∃ w k t, s = w ++ (pad k ++ t) ∧ ' ' ∉ w ∧ t.head? ≠ some ' ' ∧ (k = 0 → t = []) := by
  induction s with
  | nil => exact ⟨[], 0, [], rfl, List.not_mem_nil, by simp, fun _ => rfl⟩
  | cons c s ih =>
    obtain ⟨w, k, t, hs, hw, ht, hk⟩ := ih
    by_cases hc : c = ' '
    · cases w with
      | nil =>
        refine ⟨[], k + 1, t, ?_, List.not_mem_nil, ht, fun h => absurd h (Nat.succ_ne_zero k)⟩
        rw [hc, hs]
        rfl
      | cons x w =>
        refine ⟨[], 1, s, by rw [hc]; rfl, List.not_mem_nil, ?_, fun h => absurd h (by decide)⟩
        rw [hs]
        intro he
        injection he with he
        exact hw (by rw [he]; exact List.mem_cons_self)
    · refine ⟨c :: w, k, t, by rw [hs]; rfl, ?_, ht, hk⟩
      intro hm
      rcases List.mem_cons.1 hm with he | hm
      · exact hc he.symm
      · exact hw hm

theorem IsLine.exists_word {s : List Char} (h : IsLine s) (hs : s.head? ≠ some ' ')
    (hne : s ≠ []) :
    ∃ w k t, s = w ++ (pad k ++ t) ∧ w ≠ [] ∧ (∀ c ∈ w, isGap c = false) ∧
      ((k = 0 ∧ t = []) ∨ (0 < k ∧ t ≠ [] ∧ t.head? ≠ some ' ' ∧ t.head? ≠ some '#')) := by
  obtain ⟨w, k, t, he, hw, ht, hk⟩ := Yaml.exists_word s
  refine ⟨w, k, t, he, ?_, fun c hc => ?_, ?_⟩
  · rintro rfl
    cases k with
    | zero => exact hne (by rw [he, hk rfl]; rfl)
    | succ k => exact hs (by rw [he]; rfl)
  · have hm : c ∈ s := by
      rw [he]
      exact List.mem_append_left _ hc
    have hb : isBlank c = false := by
      cases hb : isBlank c with
      | false => rfl
      | true => exact absurd (h.blanks c hm hb ▸ hc) hw
    rw [isGap, hb, h.unbroken c hm]
    rfl
  · cases k with
    | zero => exact .inl ⟨rfl, hk rfl⟩
    | succ k =>
      have hp : pad (k + 1) = pad k ++ [' '] := List.replicate_succ'
      refine .inr ⟨Nat.succ_pos k, ?_, ht, fun hh => ?_⟩
      · rintro rfl
        refine h.last ?_
        rw [he, List.append_nil, hp, ← List.append_assoc, List.getLast?_concat]
      · cases t with
        | nil => cases hh
        | cons c t =>
          injection hh with hc
          refine h.hash (w ++ pad k) t ?_
          rw [he, hp, hc]
          simp

theorem IsLine.stops {s : List Char} (h : IsLine s) (hne : s ≠ []) (hsp : s.head? ≠ some ' ')
    (rest : List Char) : Text.Stops isGap (s ++ rest) := by
  obtain ⟨x, t, rfl⟩ := List.exists_cons_of_ne_nil hne
  refine Text.stops_cons (isGap_eq_false.2 ⟨?_, h.unbroken x List.mem_cons_self⟩)
  cases hb : isBlank x with
  | false => rfl
  | true => exact absurd (congrArg some (h.blanks x List.mem_cons_self hb)) hsp

theorem startsBlank_append {r : List Char} (h : startsBlank r = false) (t : List Char) :
    startsBlank (r ++ t) = false := by
  cases r with
  | nil => cases h
  | cons x r => exact h

/-! ## reading -/

namespace Plain

/-- a word of a scalar is read up to what ends it -/
theorem run_word (start : Mark) {w t : List Char} (hw : ∀ c ∈ w, isGap c = false)
    (hc : ∀ a r, w = a ++ ':' :: r → startsBlank (r ++ t) = false)
    (ht : ∀ m, run false start ⟨t, m, none⟩ = .ok ([], ⟨t, m, none⟩)) (m : Mark) :
    run false start ⟨w ++ t, m, none⟩ = .ok (w, ⟨t, m.walk w, none⟩) := by
  induction w generalizing m with
  | nil => exact ht m
  | cons c w ih =>
    have hg := hw c List.mem_cons_self
    have hb := (isGap_eq_false.1 hg).2
    have hcolon : (decide (c = ':') && startsBlank (w ++ t)) = false := by
      by_cases h : c = ':'
      · rw [hc [] w (by rw [h]; rfl), Bool.and_false]
      · rw [decide_eq_false h, Bool.false_and]
    have hi := ih (fun d hd => hw d (List.mem_cons_of_mem _ hd))
      (fun a r he => hc (c :: a) r (by rw [he]; rfl)) (m.step c)
    rw [isGap] at hg
    rw [List.cons_append, run]
    split
    · next heq => cases heq
    · next heq =>
      cases heq
      rw [if_neg (by rw [hg]; exact Bool.false_ne_true), Bool.false_and, Bool.false_and,
        if_neg Bool.false_ne_true, Bool.false_and, Bool.or_false, hcolon,
        if_neg Bool.false_ne_true]
      show (run false start (Cursor.skip ⟨c :: (w ++ t), m, none⟩) >>= _) = _
      rw [Cursor.skip_char hb, hi]
      rfl

theorem run_gap {start : Mark} {c : Char} (h : isGap c = true) (r : List Char) (m : Mark) :
    run false start ⟨c :: r, m, none⟩ = .ok ([], ⟨c :: r, m, none⟩) := by
  rw [run]
  split
  · rfl
  · next heq =>
    cases heq
    rw [isGap] at h
    rw [if_pos h]

theorem run_colon {start : Mark} {r : List Char} (h : startsBlank r = true) (m : Mark) :
    run false start ⟨':' :: r, m, none⟩ = .ok ([], ⟨':' :: r, m, none⟩) := by
  rw [run]
  split
  · rfl
  · next heq =>
    cases heq
    rw [if_neg (by decide), Bool.false_and, Bool.false_and, if_neg Bool.false_ne_true, h]
    rfl

theorem refuseTab_space (margin : Nat) (start : Mark) (c : Cursor)
    (h : c.rest.head? = some ' ') : refuseTab margin start c = none := by
  unfold refuseTab
  rw [h]
  exact if_neg fun hc => absurd hc.2 (by decide)

section Steps

variable {start : Mark} {margin fuel : Nat} {text xs r : List Char} {x : Char} {gap : Gap}
  {c d : Cursor}

/-- a word in front of a gap: the scalar goes on behind the gap unless that is left of the margin -/
theorem scanFrom_word (hf : c.fault? = none) (hi : c.isDocumentIndicator = false)
    (hh : c.rest.head? ≠ some '#') (hrun : run false start c = .ok (xs, d)) (hne : xs ≠ [])
    (hd : d.rest = x :: r) (hx : isGap x = true) {g : Gap} {e : Cursor}
    (hg : gapFrom (refuseTab margin start) {} d = .ok (g, e)) :
    scanFrom false margin start text gap (fuel + 1) c =
      if e.mark.column < margin then .ok ⟨text ++ gap.text ++ xs, g.breaksLine, e⟩
      else scanFrom false margin start (text ++ gap.text ++ xs) g fuel e := by
  have hn : c.need 4 = .ok () := by rw [Cursor.need, hf]
  obtain ⟨y, ys, rfl⟩ := List.exists_cons_of_ne_nil hne
  rw [isGap] at hx
  obtain ⟨rest, mark, fault?⟩ := d
  cases hd
  rw [scanFrom, hn, hi, hrun]
  simp only [hh]
  show (if (isBlank x || isBreak x) = true then
    (gapFrom (refuseTab margin start) {} ⟨x :: r, mark, fault?⟩ >>= _) else _) = _
  rw [if_pos hx, hg]
  by_cases hm : e.mark.column < margin
  · rw [if_pos hm]
    show (if (!false && decide (e.mark.column < margin)) = true then _ else _) = _
    rw [if_pos (by rw [decide_eq_true hm]; rfl)]
    rfl
  · rw [if_neg hm]
    show (if (!false && decide (e.mark.column < margin)) = true then _ else _) = _
    rw [if_neg (by rw [decide_eq_false hm]; exact Bool.false_ne_true)]
    rfl

theorem scanFrom_last (hf : c.fault? = none) (hi : c.isDocumentIndicator = false)
    (hh : c.rest.head? ≠ some '#') (hrun : run false start c = .ok (xs, d)) (hne : xs ≠ [])
    (hd : d.rest = x :: r) (hx : isGap x = false) :
    scanFrom false margin start text gap (fuel + 1) c =
      .ok ⟨text ++ gap.text ++ xs, false, d⟩ := by
  have hn : c.need 4 = .ok () := by rw [Cursor.need, hf]
  obtain ⟨y, ys, rfl⟩ := List.exists_cons_of_ne_nil hne
  rw [isGap] at hx
  cases d
  cases hd
  rw [scanFrom, hn, hi, hrun]
  simp only [hh]
  show (if (isBlank x || isBreak x) = true then _ else _) = _
  rw [if_neg (by rw [hx]; exact Bool.false_ne_true)]
  rfl

/-- a word in front of spaces: the scalar goes on behind them -/
theorem scanFrom_spaces {w t : List Char} {k : Nat} {m : Mark} (hw : ∀ c ∈ w, isGap c = false)
    (hne : w ≠ []) (hsharp : w.head? ≠ some '#')
    (hc : ∀ a r, w = a ++ ':' :: r → startsBlank (r ++ (pad (k + 1) ++ t)) = false)
    (ht : Text.Stops isGap t) (h0 : 0 < margin) (hm : margin ≤ m.column) :
    scanFrom false margin start text gap (fuel + 1) ⟨w ++ (pad (k + 1) ++ t), m, none⟩ =
      scanFrom false margin start (text ++ gap.text ++ w) { blanks := pad (k + 1) } fuel
        ⟨t, (m.walk w).walk (pad (k + 1)), none⟩ := by
  have hwb : ∀ c ∈ w, isBreak c = false := fun c hc => (isGap_eq_false.1 (hw c hc)).2
  have hdoc : Cursor.isDocumentIndicator ⟨w ++ (pad (k + 1) ++ t), m, none⟩ = false :=
    Cursor.isDocumentIndicator_of_column (by show m.column ≠ 0; omega)
  have hrun := run_word start hw hc (run_gap rfl _) m
  have hgap : gapFrom (refuseTab margin start) {} ⟨pad (k + 1) ++ t, m.walk w, none⟩ =
      .ok ({ blanks := pad (k + 1) }, ⟨t, (m.walk w).walk (pad (k + 1)), none⟩) := by
    rw [gapFrom_spaces (refuseTab_space margin start) _ rfl, gapFrom_stop ht]
    rfl
  have hcol : margin ≤ ((m.walk w).walk (pad (k + 1))).column := by
    rw [Mark.column_walk_run fun c hc => isBreak_of_mem_pad hc, Mark.column_walk_run hwb]
    omega
  have hhead : (w ++ (pad (k + 1) ++ t)).head? ≠ some '#' := by
    rwa [List.head?_append, Option.or_of_isSome (List.isSome_head?.2 hne)]
  rw [scanFrom_word rfl hdoc hhead hrun hne rfl rfl hgap, if_neg (Nat.not_lt.2 hcol)]

/-- a word at the end of a line is the last one where the next line starts left of the margin -/
theorem scanFrom_newline {w rest : List Char} {n : Nat} {m : Mark}
    (hw : ∀ c ∈ w, isGap c = false) (hne : w ≠ []) (hsharp : w.head? ≠ some '#')
    (hc : ∀ a r, w = a ++ ':' :: r → startsBlank (r ++ '\n' :: (pad n ++ rest)) = false)
    (hr : Text.Stops isGap rest) (hn : n < margin) (hm : margin ≤ m.column) :
    scanFrom false margin start text gap (fuel + 1) ⟨w ++ '\n' :: (pad n ++ rest), m, none⟩ =
      .ok ⟨text ++ gap.text ++ w, true, ⟨rest, m.walk (w ++ '\n' :: pad n), none⟩⟩ := by
  have hdoc : Cursor.isDocumentIndicator ⟨w ++ '\n' :: (pad n ++ rest), m, none⟩ = false :=
    Cursor.isDocumentIndicator_of_column (by show m.column ≠ 0; omega)
  have hrun := run_word start hw hc (run_gap rfl _) m
  have hgap : gapFrom (refuseTab margin start) {} ⟨'\n' :: (pad n ++ rest), m.walk w, none⟩ =
      .ok ({ first? := some ['\n'] }, ⟨rest, (m.walk w).walk ('\n' :: pad n), none⟩) := by
    rw [gapFrom_lineEnd rfl, gapFrom_pad (refuseTab_space margin start) _ rfl, gapFrom_stop hr]
    rfl
  have hcol : ((m.walk w).walk ('\n' :: pad n)).column < margin := by
    rwa [(Mark.walk_lineEnd_pad rfl _ n).1]
  have hhead : (w ++ '\n' :: (pad n ++ rest)).head? ≠ some '#' := by
    rwa [List.head?_append, Option.or_of_isSome (List.isSome_head?.2 hne)]
  rw [scanFrom_word rfl hdoc hhead hrun hne rfl rfl hgap, if_pos hcol, Mark.walk_append]
  rfl

end Steps

/-- a row of words at the end of a line is read to its end, and over the line break; the next line
starts left of the margin -/
theorem scanFrom_line {start : Mark} {margin n : Nat} (hn : n < margin) {rest : List Char}
    (hr : Text.Stops isGap rest) {s : List Char} (hs : IsLine s) (hne : s ≠ [])
    (hsp : s.head? ≠ some ' ') (hsharp : s.head? ≠ some '#') (text : List Char) (g : Gap)
    {fuel : Nat} (hf : s.length < fuel) {m : Mark} (hm : margin ≤ m.column) :
    scanFrom false margin start text g fuel ⟨s ++ '\n' :: (pad n ++ rest), m, none⟩ =
      .ok ⟨text ++ g.text ++ s, true, ⟨rest, m.walk (s ++ '\n' :: pad n), none⟩⟩ := by
  induction fuel generalizing s text g m with
  | zero => exact absurd hf (Nat.not_lt_zero _)
  | succ fuel ih =>
    obtain ⟨w, k, t, rfl, hwne, hw, ht⟩ := hs.exists_word hsp hne
    have hfirst : w.head? ≠ some '#' := by
      rwa [List.head?_append, Option.or_of_isSome (List.isSome_head?.2 hwne)] at hsharp
    -- what follows a colon of the first word is in the text, and is not blank
    have hcolon : ∀ a r, w = a ++ ':' :: r →
        startsBlank (r ++ (pad k ++ t) ++ '\n' :: (pad n ++ rest)) = false := fun a r he =>
      startsBlank_append (hs.colon a (r ++ (pad k ++ t)) (by rw [he, List.append_assoc]; rfl)) _
    rcases ht with ⟨rfl, rfl⟩ | ⟨hk, htne, htsp, htsharp⟩
    · have hp : w ++ (pad 0 ++ []) = w := List.append_nil w
      rw [hp]
      refine scanFrom_newline hw hwne hfirst (fun a r he => ?_) hr hn hm
      have hc := hcolon a r he
      rwa [show pad 0 ++ [] = [] from rfl, List.append_nil] at hc
    · obtain ⟨k, rfl⟩ := Nat.exists_eq_succ_of_ne_zero (Nat.ne_of_gt hk)
      have hts : IsLine t := by
        rw [← List.append_assoc] at hs
        exact hs.suffix
      have hstop : Text.Stops isGap (t ++ '\n' :: (pad n ++ rest)) := hts.stops htne htsp _
      have hlen : t.length < fuel := by
        rw [List.length_append, List.length_append, length_pad] at hf
        omega
      have hcol : margin ≤ ((m.walk w).walk (pad (k + 1))).column := by
        rw [Mark.column_walk_run fun c hc => isBreak_of_mem_pad hc,
          Mark.column_walk_run fun c hc => (isGap_eq_false.1 (hw c hc)).2]
        omega
      have htail := ih hts htne htsp htsharp (text ++ g.text ++ w)
        { blanks := pad (k + 1) } hlen hcol
      rw [List.append_assoc, List.append_assoc, scanFrom_spaces hw hwne hfirst
        (fun a r he => by simpa only [List.append_assoc] using hcolon a r he) hstop
        (Nat.lt_of_le_of_lt (Nat.zero_le n) hn) hm, htail]
      simp only [Gap.text, List.append_assoc, Mark.walk_append]

/-- a text that can be plain reads back at the end of its line -/
theorem scan_line {margin n : Nat} (hn : n < margin) {rest : List Char}
    (hr : Text.Stops isGap rest) {s : List Char} (hs : canBePlain s = true) (hne : s ≠ [])
    {m : Mark} (hm : margin ≤ m.column) :
    scan false margin ⟨s ++ '\n' :: (pad n ++ rest), m, none⟩ =
      .ok ⟨s, true, ⟨rest, m.walk (s ++ '\n' :: pad n), none⟩⟩ := by
  obtain ⟨-, -, hsp, -, hi, -⟩ := canBePlain_iff.1 hs
  have hsharp : s.head? ≠ some '#' := by
    cases s with
    | nil => exact absurd rfl hne
    | cons c s =>
      intro he
      injection he with he
      rw [he] at hi
      cases hi
  have hlen : s.length < (s ++ '\n' :: (pad n ++ rest)).length + 1 := by
    rw [List.length_append]
    omega
  exact scanFrom_line hn hr (isLine_of_canBePlain hs) hne hsp hsharp [] {} hlen hm

theorem isDocumentIndicator_word {c : Char} (h : isWordChar c = true) (r : List Char) (m : Mark) :
    Cursor.isDocumentIndicator ⟨c :: r, m, none⟩ = false := by
  have hm := not_mem_of_isWordChar h
  unfold Cursor.isDocumentIndicator
  split
  · next heq =>
    injection heq with he
    exact absurd (by rw [he]; decide) hm
  · next heq =>
    injection heq with he
    exact absurd (by rw [he]; decide) hm
  · exact Bool.and_false _

theorem scan_key (margin : Nat) {key tail : List Char} (hk : ∀ c ∈ key, isWordChar c = true)
    (hne : key ≠ []) (ht : startsBlank tail = true) (m : Mark) :
    scan false margin ⟨key ++ ':' :: tail, m, none⟩ =
      .ok ⟨key, false, ⟨':' :: tail, m.walk key, none⟩⟩ := by
  have hgap : ∀ c ∈ key, isGap c = false := fun c hc => isGap_of_isWordChar (hk c hc)
  have hcolon : ∀ a r, key = a ++ ':' :: r → startsBlank (r ++ ':' :: tail) = false := by
    intro a r he
    have hc : ':' ∈ key := by rw [he]; simp
    exact absurd (by decide) (not_mem_of_isWordChar (hk _ hc))
  have hrun := run_word m hgap hcolon (run_colon ht) m
  obtain ⟨c, r, rfl⟩ := List.exists_cons_of_ne_nil hne
  have hc := hk c List.mem_cons_self
  have hsharp : ((c :: r) ++ ':' :: tail).head? ≠ some '#' := by
    intro he
    injection he with he
    exact absurd (by rw [he]; decide) (not_mem_of_isWordChar hc)
  exact scanFrom_last rfl (isDocumentIndicator_word hc _ m) hsharp hrun hne rfl rfl

end Plain

end MachineSpec.Yaml
