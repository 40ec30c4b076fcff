import MachineSpec.Proofs.Text.Coding
import MachineSpec.Proofs.Text.Numerals
import MachineSpec.Proofs.Yaml.Cursor

/-!
# Scalars between quotes read back

A text between quotes is a row of runs with gaps between them.  Between single quotes the gaps are
the spaces and line breaks of the text; between double quotes every character but the space is ink,
as itself or as an escape.

* `IsInk`              a character that is read as it is written
* `Reads`              a gap that is read as it is written
* `Quotes`             a text and what is written for it in front of the closing quote and with it
* `scanFrom_quotes`    such a text is read back
* `scan_single`        a text between single quotes
* `scan_double`        a text between double quotes
-/

namespace MachineSpec.Yaml.Quoted

open Quoting

/-! ## runs and gaps -/

/-- a character that is read as it is written -/
structure IsInk (quote : Char) (enc : Char → List Char) (c : Char) : Prop where
  ne_nil : enc c ≠ []
  unbroken : ∀ d ∈ enc c, isBreak d = false
  step : ∀ start fuel t m, run quote start (fuel + 1) ⟨enc c ++ t, m, none⟩ =
    run.go quote start (.ok (c, ⟨t, m.walk (enc c), none⟩)) fuel

section Runs

variable {quote : Char} {enc : Char → List Char} {w : List Char}

theorem isBreak_of_mem_ink (hw : ∀ c ∈ w, IsInk quote enc c) {d : Char}
    (hd : d ∈ w.flatMap enc) : isBreak d = false := by
  obtain ⟨c, hc, hd⟩ := List.mem_flatMap.1 hd
  exact (hw c hc).unbroken d hd

theorem length_le_ink (hw : ∀ c ∈ w, IsInk quote enc c) :
    w.length ≤ (w.flatMap enc).length := by
  induction w with
  | nil => exact Nat.le_refl 0
  | cons c w ih =>
    have hc := List.length_pos_iff.2 (hw c List.mem_cons_self).ne_nil
    have hi := ih fun d hd => hw d (List.mem_cons_of_mem _ hd)
    rw [List.flatMap_cons, List.length_append, List.length_cons]
    omega

theorem run_ink (start : Mark) (hw : ∀ c ∈ w, IsInk quote enc c) {t : List Char}
    (ht : ∀ fuel m, run quote start (fuel + 1) ⟨t, m, none⟩ = .ok ([], false, ⟨t, m, none⟩))
    {fuel : Nat} (hf : w.length < fuel) (m : Mark) :
    run quote start fuel ⟨w.flatMap enc ++ t, m, none⟩ =
      .ok (w, false, ⟨t, m.walk (w.flatMap enc), none⟩) := by
  induction w generalizing fuel m with
  | nil =>
    obtain ⟨fuel, rfl⟩ := Nat.exists_eq_succ_of_ne_zero (Nat.ne_of_gt hf)
    exact ht fuel m
  | cons c w ih =>
    obtain ⟨fuel, rfl⟩ := Nat.exists_eq_succ_of_ne_zero (Nat.ne_zero_of_lt hf)
    have hi := ih (fun d hd => hw d (List.mem_cons_of_mem _ hd)) (Nat.lt_of_succ_lt_succ hf)
      (m.walk (enc c))
    rw [List.flatMap_cons, List.append_assoc, (hw c List.mem_cons_self).step, run.go,
      Mark.walk_append]
    show (run quote start fuel _ >>= _) = _
    rw [hi]
    rfl

theorem run_gap {start : Mark} {x : Char} (h : isGap x = true) (r : List Char) (fuel : Nat)
    (m : Mark) :
    run quote start (fuel + 1) ⟨x :: r, m, none⟩ = .ok ([], false, ⟨x :: r, m, none⟩) := by
  rw [isGap] at h
  rw [run]
  exact if_pos h

end Runs

/-- what is written between two runs, and the white space that it stands for -/
def Reads (written g : List Char) : Prop :=
  ∀ rest m, Text.Stops isGap rest → ∃ gap : Gap, gap.text = g ∧
    gapFrom (fun _ => none) {} ⟨written ++ rest, m, none⟩ = .ok (gap, ⟨rest, m.walk written, none⟩)

theorem reads_spaces (k : Nat) : Reads (pad k) (pad k) := fun rest m hr =>
  ⟨{ blanks := pad k }, rfl, by
    rw [gapFrom_spaces (fun _ _ => rfl) _ rfl, gapFrom_stop hr]
    rfl⟩

theorem reads_breaks {b : Char} {bs : List Char} (hb : ∀ x ∈ b :: bs, isLineEnd x = true)
    (hn : b ≠ '\n') (n : Nat) : Reads (b :: bs ++ pad n) (b :: bs) := by
  intro rest m hr
  refine ⟨{ first? := some [b], more := bs }, ?_, ?_⟩
  · have hne : [b] ≠ ['\n'] := fun he => hn (List.cons.inj he).1
    show (if [b] = ['\n'] then _ else [b] ++ bs) = _
    rw [if_neg hne]
    rfl
  · rw [List.append_assoc, List.cons_append, gapFrom_lineEnd (hb b List.mem_cons_self)]
    show gapFrom _ { first? := some [b] } _ = _
    rw [gapFrom_breaks (fun x hx => hb x (List.mem_cons_of_mem _ hx)) rfl,
      gapFrom_pad (fun _ _ => rfl) _ rfl, gapFrom_stop hr, Mark.walk_append]
    rfl

section Steps

variable {quote : Char} {start : Mark}

variable {c d e : Cursor} {text xs r : List Char} {fuel : Nat}

/-- a run in front of a gap: the text goes on behind it -/
theorem scanFrom_gap (hf : c.fault? = none) (hi : c.isDocumentIndicator = false)
    (hne : c.rest.isEmpty = false)
    (hrun : run quote start (c.rest.length + 1) c = .ok (xs, false, d)) (hd : d.fault? = none)
    (hq : d.rest.head? ≠ some quote) {g : Gap} (hg : gapFrom (fun _ => none) {} d = .ok (g, e)) :
    scanFrom quote start text (fuel + 1) c =
      scanFrom quote start (text ++ xs ++ g.text) fuel e := by
  have hc : c.need 4 = .ok () := by rw [Cursor.need, hf]
  have hn : d.need 1 = .ok () := by rw [Cursor.need, hd]
  rw [scanFrom, hc, hi, hne, hrun]
  show (d.need 1 >>= _) = _
  rw [hn]
  show (if d.rest.head? = some quote then _ else
    (gapFrom (fun _ => none) {} d >>= _)) = _
  rw [if_neg hq, hg]
  rfl

theorem scanFrom_close (hf : c.fault? = none) (hi : c.isDocumentIndicator = false)
    (hne : c.rest.isEmpty = false)
    (hrun : run quote start (c.rest.length + 1) c = .ok (xs, false, d)) (hd : d.fault? = none)
    (hq : d.rest.head? = some quote) :
    scanFrom quote start text (fuel + 1) c = .ok (text ++ xs, d.skip) := by
  have hc : c.need 4 = .ok () := by rw [Cursor.need, hf]
  have hn : d.need 1 = .ok () := by rw [Cursor.need, hd]
  rw [scanFrom, hc, hi, hne, hrun]
  show (d.need 1 >>= _) = _
  rw [hn]
  show (if d.rest.head? = some quote then _ else _) = _
  rw [if_pos hq]
  rfl

end Steps

/-- a text, and what is written for it together with the closing quote -/
inductive Quotes (quote : Char) (enc : Char → List Char) : List Char → List Char → Prop where
  | close {w : List Char} (hw : ∀ c ∈ w, IsInk quote enc c) :
    Quotes quote enc w (w.flatMap enc ++ [quote])
  | gap {w r g t W : List Char} {x : Char} (hw : ∀ c ∈ w, IsInk quote enc c)
    (hx : isGap x = true) (hr : Reads (x :: r) g)
    (hc : ∀ m : Mark, m.column ≠ 0 → (m.walk (x :: r)).column ≠ 0)
    (hs : ∀ rest, Text.Stops isGap (W ++ rest)) (ht : Quotes quote enc t W) :
    Quotes quote enc (w ++ (g ++ t)) (w.flatMap enc ++ (x :: r ++ W))

section Runs

variable {quote : Char} {enc : Char → List Char} {start : Mark} {text w rest : List Char}
  {fuel : Nat} {m : Mark}

theorem scanFrom_last (hq : isGap quote = false)
    (hclose : ∀ fuel m, run quote start (fuel + 1) ⟨quote :: rest, m, none⟩ =
      .ok ([], false, ⟨quote :: rest, m, none⟩)) (hw : ∀ c ∈ w, IsInk quote enc c)
    (hm : m.column ≠ 0) :
    scanFrom quote start text (fuel + 1) ⟨w.flatMap enc ++ quote :: rest, m, none⟩ =
      .ok (text ++ w, ⟨rest, m.walk (w.flatMap enc ++ [quote]), none⟩) := by
  have hlen : w.length < (w.flatMap enc ++ quote :: rest).length + 1 := by
    have hl := length_le_ink hw
    rw [List.length_append]
    omega
  have hrun := run_ink start hw hclose hlen m
  have hskip : Cursor.skip ⟨quote :: rest, m.walk (w.flatMap enc), none⟩ = _ :=
    Cursor.skip_char (isGap_eq_false.1 hq).2 rest _
  rw [scanFrom_close rfl (Cursor.isDocumentIndicator_of_column hm) (by simp) hrun rfl rfl, hskip,
    Mark.walk_append]
  rfl

theorem scanFrom_reads {x : Char} {r g : List Char} (hq : isGap quote = false)
    (hw : ∀ c ∈ w, IsInk quote enc c) (hx : isGap x = true) (hr : Reads (x :: r) g)
    (ht : Text.Stops isGap rest) (hm : m.column ≠ 0) :
    scanFrom quote start text (fuel + 1) ⟨w.flatMap enc ++ (x :: r ++ rest), m, none⟩ =
      scanFrom quote start (text ++ w ++ g) fuel
        ⟨rest, (m.walk (w.flatMap enc)).walk (x :: r), none⟩ := by
  have hlen : w.length < (w.flatMap enc ++ (x :: r ++ rest)).length + 1 := by
    have hl := length_le_ink hw
    rw [List.length_append]
    omega
  have hrun := run_ink start hw (run_gap hx (r ++ rest)) hlen m
  obtain ⟨gap, rfl, hgap⟩ := hr rest (m.walk (w.flatMap enc)) ht
  have hquote : (x :: (r ++ rest)).head? ≠ some quote := by
    intro he
    injection he with he
    rw [he, hq] at hx
    cases hx
  rw [scanFrom_gap rfl (Cursor.isDocumentIndicator_of_column hm) (by simp) hrun rfl hquote hgap]

end Runs

/-- what is written for a text is read back, up to the closing quote -/
theorem scanFrom_quotes {quote : Char} {enc : Char → List Char} {start : Mark}
    (hq : isGap quote = false) {rest : List Char}
    (hclose : ∀ fuel m, run quote start (fuel + 1) ⟨quote :: rest, m, none⟩ =
      .ok ([], false, ⟨quote :: rest, m, none⟩)) {s W : List Char} (h : Quotes quote enc s W)
    (text : List Char) {fuel : Nat} (hf : W.length < fuel) {m : Mark} (hm : m.column ≠ 0) :
    scanFrom quote start text fuel ⟨W ++ rest, m, none⟩ =
      .ok (text ++ s, ⟨rest, m.walk W, none⟩) := by
  induction h generalizing text fuel m with
  | close hw =>
    obtain ⟨fuel, rfl⟩ := Nat.exists_eq_succ_of_ne_zero (Nat.ne_zero_of_lt hf)
    rw [List.append_assoc, List.singleton_append]
    exact scanFrom_last hq hclose hw hm
  | gap hw hx hr hc hs ht ih =>
    rename_i w r g t W x
    obtain ⟨fuel, rfl⟩ := Nat.exists_eq_succ_of_ne_zero (Nat.ne_zero_of_lt hf)
    have hcol : ((m.walk (w.flatMap enc)).walk (x :: r)).column ≠ 0 := by
      refine hc _ ?_
      rw [Mark.column_walk_run fun d hd => isBreak_of_mem_ink hw hd]
      omega
    have hfuel : W.length < fuel := by
      rw [List.length_append, List.length_append, List.length_cons] at hf
      omega
    have hi := ih (text ++ w ++ g) hfuel hcol
    rw [List.append_assoc, List.append_assoc, scanFrom_reads hq hw hx hr (hs rest) hm, hi,
      Mark.walk_append, Mark.walk_append]
    simp only [List.append_assoc]

/-! ## between single quotes -/

def quoteChar (c : Char) : List Char := if c = '\'' then ['\'', '\''] else [c]

theorem quoteChar_ne_nil (c : Char) : quoteChar c ≠ [] := by
  unfold quoteChar
  split
  · exact List.cons_ne_nil _ _
  · exact List.cons_ne_nil _ _

theorem eq_of_mem_quoteChar {c d : Char} (h : d ∈ quoteChar c) : d = c := by
  unfold quoteChar at h
  split at h
  · next hc => simp [hc] at h ⊢; exact h
  · exact List.mem_singleton.1 h

theorem head?_quoteChar (c : Char) : (quoteChar c).head? = some c := by
  unfold quoteChar
  split
  · next h => rw [h]; rfl
  · rfl

theorem flatMap_quoteChar {w : List Char} (h : ∀ c ∈ w, c ≠ '\'') : w.flatMap quoteChar = w := by
  induction w with
  | nil => rfl
  | cons c w ih =>
    rw [List.flatMap_cons, quoteChar, if_neg (h c List.mem_cons_self),
      ih fun d hd => h d (List.mem_cons_of_mem _ hd)]
    rfl

theorem isInk_quoteChar {c : Char} (h : isGap c = false) : IsInk '\'' quoteChar c where
  ne_nil := quoteChar_ne_nil c
  unbroken d hd := by
    rw [eq_of_mem_quoteChar hd]
    exact (isGap_eq_false.1 h).2
  step start fuel t m := by
    rw [isGap] at h
    by_cases hc : c = '\''
    · have ha : Cursor.advance 2 ⟨'\'' :: '\'' :: t, m, none⟩ =
          ⟨t, m.walk ['\'', '\''], none⟩ :=
        Cursor.advance_run (List.forall_mem_cons.2 ⟨rfl, List.forall_mem_singleton.2 rfl⟩) t m
      rw [hc, quoteChar, if_pos rfl, ← ha, List.cons_append, List.cons_append, List.nil_append,
        run]
      rfl
    · have hb : isBreak c = false := (isGap_eq_false.1 h).2
      rw [quoteChar, if_neg hc, List.singleton_append, run]
      show (if (isBlank c || isBreak c) = true then _ else if c = '\'' then _ else
        run.go '\'' start (.ok (c, Cursor.skip ⟨c :: t, m, none⟩)) fuel) = _
      rw [if_neg (by rw [h]; exact Bool.false_ne_true), if_neg hc, Cursor.skip_char hb]
      rfl

theorem run_quote {start : Mark} {rest : List Char} (h : rest.head? ≠ some '\'') (fuel : Nat)
    (m : Mark) :
    run '\'' start (fuel + 1) ⟨'\'' :: rest, m, none⟩ =
      .ok ([], false, ⟨'\'' :: rest, m, none⟩) := by
  rw [run]
  show (if ('\'' = '\'' && rest.head? = some '\'') = true then _ else _) = _
  rw [decide_eq_false h]
  rfl

theorem singleFrom_ink (indent : Nat) {w : List Char} (hw : ∀ c ∈ w, isBreak c = false)
    (t : List Char) :
    singleFrom indent false (w ++ t) = w.flatMap quoteChar ++ singleFrom indent false t := by
  induction w with
  | nil => rfl
  | cons c w ih =>
    rw [List.cons_append, singleFrom, hw c List.mem_cons_self, if_neg Bool.false_ne_true,
      if_neg Bool.false_ne_true, ih fun d hd => hw d (List.mem_cons_of_mem _ hd),
      List.flatMap_cons, List.nil_append, List.append_assoc]
    rfl

theorem singleFrom_breaks (indent : Nat) (broken : Bool) {bs : List Char}
    (hb : ∀ b ∈ bs, isBreak b = true) (t : List Char) :
    singleFrom indent broken (bs ++ t) =
      bs ++ singleFrom indent (broken || !bs.isEmpty) t := by
  induction bs generalizing broken with
  | nil => rw [List.isEmpty_nil, Bool.not_true, Bool.or_false]; rfl
  | cons b bs ih =>
    rw [List.cons_append, singleFrom, if_pos (hb b List.mem_cons_self),
      ih true fun d hd => hb d (List.mem_cons_of_mem _ hd)]
    simp

theorem singleFrom_true (indent : Nat) {t : List Char} (ht : Text.Stops isBreak t) :
    singleFrom indent true t = pad indent ++ singleFrom indent false t := by
  cases t with
  | nil => rfl
  | cons c t =>
    have hc := ht c rfl
    rw [singleFrom, singleFrom, hc, if_neg Bool.false_ne_true, if_pos rfl,
      if_neg Bool.false_ne_true, if_neg Bool.false_ne_true, List.nil_append, List.append_assoc]

/-- behind a gap comes ink, or the closing quote -/
theorem stops_singleFrom (indent : Nat) {t : List Char} (ht : Text.Stops isGap t)
    (rest : List Char) : Text.Stops isGap (singleFrom indent false t ++ rest) := by
  cases t with
  | nil => exact Text.stops_cons rfl
  | cons c t =>
    have hc := ht c rfl
    have hb : isBreak c = false := (isGap_eq_false.1 hc).2
    have hs := singleFrom_ink indent (w := [c]) (fun d hd => List.mem_singleton.1 hd ▸ hb) t
    have hh : (singleFrom indent false (c :: t) ++ rest).head? = some c := by
      rw [List.singleton_append, List.flatMap_singleton] at hs
      rw [hs, List.append_assoc, List.head?_append, head?_quoteChar]
      rfl
    intro x hx
    rw [hh] at hx
    injection hx with hx
    rwa [← hx]

/-- white space of a text that single quotes keep: its line breaks are no line feeds, and it has no
spaces around them -/
structure IsParagraph (s : List Char) : Prop where
  printable : ∀ c ∈ s, isPrintable c = true
  oneLine : '\n' ∉ s
  breakSpace : ∀ a x r, s = a ++ x :: ' ' :: r → isBreak x = false
  spaceBreak : ∀ a y r, s = a ++ ' ' :: y :: r → isBreak y = false

theorem IsParagraph.suffix {a s : List Char} (h : IsParagraph (a ++ s)) : IsParagraph s where
  printable c hc := h.printable c (List.mem_append_right _ hc)
  oneLine hm := h.oneLine (List.mem_append_right _ hm)
  breakSpace b x r he := h.breakSpace (a ++ b) x r (by rw [he, List.append_assoc])
  spaceBreak b y r he := h.spaceBreak (a ++ b) y r (by rw [he, List.append_assoc])

theorem hasPair_append {p q : Char → Bool} {x y : Char} (hx : p x = true) (hy : q y = true)
    (a r : List Char) : hasPair p q (a ++ x :: y :: r) = true := by
  induction a with
  | nil => rw [List.nil_append, hasPair, hx, hy]; rfl
  | cons z a ih =>
    rw [List.cons_append]
    cases ha : a ++ x :: y :: r with
    | nil =>
      rw [ha] at ih
      cases ih
    | cons u v =>
      rw [ha] at ih
      rw [hasPair, ih, Bool.or_true]

theorem isParagraph_of_canBeSingle {s : List Char} (h : canBeSingle s = true) (hn : '\n' ∉ s) :
    IsParagraph s := by
  simp only [canBeSingle, Bool.and_eq_true, Bool.not_eq_true', List.all_eq_true] at h
  obtain ⟨⟨hp, hbs⟩, hsb⟩ := h
  refine ⟨hp, hn, fun a x r he => ?_, fun a y r he => ?_⟩
  · cases hx : isBreak x with
    | false => rfl
    | true =>
      rw [he, hasPair_append hx (q := isSpace) rfl] at hbs
      cases hbs
  · cases hy : isBreak y with
    | false => rfl
    | true =>
      rw [he, hasPair_append (p := isSpace) rfl hy] at hsb
      cases hsb

theorem IsParagraph.stops_spaces {a t : List Char} (h : IsParagraph (a ++ ' ' :: t))
    (ht : Text.Stops isSpace t) : Text.Stops isGap t := by
  intro x hx
  obtain ⟨r, rfl⟩ : ∃ r, t = x :: r := List.head?_eq_some_iff.1 hx
  have hp : isPrintable x = true := h.printable x (by simp)
  have hs : x ≠ ' ' := of_decide_eq_false (ht x hx)
  rw [isGap, h.spaceBreak a x r rfl, isBlank_eq_false hp hs, Bool.or_false]

theorem IsParagraph.stops_breaks {a t : List Char} {b : Char} (hb : isBreak b = true)
    (h : IsParagraph (a ++ b :: t)) (ht : Text.Stops isBreak t) : Text.Stops isGap t := by
  intro x hx
  obtain ⟨r, rfl⟩ : ∃ r, t = x :: r := List.head?_eq_some_iff.1 hx
  have hp : isPrintable x = true := h.printable x (by simp)
  have hs : x ≠ ' ' := by
    rintro rfl
    rw [h.breakSpace a b r rfl] at hb
    cases hb
  rw [isGap, ht x hx, isBlank_eq_false hp hs, Bool.or_false]

/-- a gap in front of a text, and what is written for it between single quotes -/
structure GapWritten (indent : Nat) (g t written : List Char) : Prop where
  ne_nil : g ≠ []
  stops : Text.Stops isGap t
  reads : Reads written g
  single : singleFrom indent false (g ++ t) = written ++ singleFrom indent false t
  starts : ∃ x r, written = x :: r ∧ isGap x = true
  column : ∀ m : Mark, m.column ≠ 0 → (m.walk written).column ≠ 0

/-- spaces stand for themselves -/
theorem IsParagraph.exists_spaces {s : List Char} (h : IsParagraph (' ' :: s)) (indent : Nat) :
    ∃ g t written, ' ' :: s = g ++ t ∧ GapWritten indent g t written := by
  obtain ⟨g, t, rfl, hg, ht⟩ := Text.exists_run isSpace s
  have hpad : ' ' :: g = pad (g.length + 1) := cons_eq_pad hg
  have hb : ∀ d ∈ pad (g.length + 1), isBreak d = false := fun d hd => isBreak_of_mem_pad hd
  have hq : (pad (g.length + 1)).flatMap quoteChar = pad (g.length + 1) :=
    flatMap_quoteChar fun d hd => by
      rw [List.eq_of_mem_replicate hd]
      decide
  have hs : ' ' :: (g ++ t) = pad g.length ++ ' ' :: t := by
    have hp : pad (g.length + 1) = pad g.length ++ [' '] := List.replicate_succ'
    rw [← List.cons_append, hpad, hp, List.append_assoc]
    rfl
  refine ⟨pad (g.length + 1), t, pad (g.length + 1), by rw [← hpad]; rfl, ?_⟩
  exact {
    ne_nil := List.cons_ne_nil _ _
    stops := IsParagraph.stops_spaces (hs ▸ h) ht
    reads := reads_spaces _
    single := by rw [singleFrom_ink indent hb, hq]
    starts := ⟨' ', pad g.length, rfl, rfl⟩
    column := fun m hm => by
      rw [Mark.column_walk_run hb]
      omega }

/-- line breaks are followed by the indentation -/
theorem IsParagraph.exists_breaks {c : Char} {s : List Char} (h : IsParagraph (c :: s))
    (hc : isBreak c = true) {indent : Nat} (hi : 0 < indent) :
    ∃ g t written, c :: s = g ++ t ∧ GapWritten indent g t written := by
  obtain ⟨g, t, rfl, hg, ht⟩ := Text.exists_run isBreak s
  have hb : ∀ b ∈ c :: g, isBreak b = true := List.forall_mem_cons.2 ⟨hc, hg⟩
  have hl : ∀ b ∈ c :: g, isLineEnd b = true := fun b hm =>
    isLineEnd_of_isPrintable (h.printable b (List.mem_append_left t hm)) (hb b hm)
  have hn : c ≠ '\n' := fun hc => h.oneLine (by rw [hc]; exact List.mem_cons_self)
  obtain ⟨a, b, hab⟩ : ∃ a b, c :: g = a ++ [b] :=
    ⟨_, _, (List.dropLast_concat_getLast (List.cons_ne_nil c g)).symm⟩
  have hbm : b ∈ c :: g := by rw [hab]; simp
  have hs : c :: (g ++ t) = a ++ b :: t := by
    rw [← List.cons_append, hab, List.append_assoc]
    rfl
  refine ⟨c :: g, t, c :: g ++ pad indent, rfl, ?_⟩
  exact {
    ne_nil := List.cons_ne_nil _ _
    stops := IsParagraph.stops_breaks (hb b hbm) (hs ▸ h) ht
    reads := reads_breaks hl hn indent
    single := by
      rw [singleFrom_breaks indent false hb, List.append_assoc, ← singleFrom_true indent ht]
      rfl
    starts := ⟨c, g ++ pad indent, rfl, by rw [isGap, hc, Bool.or_true]⟩
    column := fun m _ => by
      rw [hab, List.append_assoc, Mark.walk_append, List.singleton_append,
        (Mark.walk_lineEnd_pad (hl b hbm) _ indent).1]
      exact Nat.ne_of_gt hi }

theorem IsParagraph.exists_gap {c : Char} {s : List Char} (h : IsParagraph (c :: s))
    (hc : isGap c = true) {indent : Nat} (hi : 0 < indent) :
    ∃ g t written, c :: s = g ++ t ∧ GapWritten indent g t written := by
  by_cases hsp : c = ' '
  · subst hsp
    exact h.exists_spaces indent
  · rw [isGap, isBlank_eq_false (h.printable c List.mem_cons_self) hsp, Bool.false_or] at hc
    exact h.exists_breaks hc hi

theorem IsParagraph.quotes {indent : Nat} (hi : 0 < indent) {s : List Char} (hs : IsParagraph s) :
    Quotes '\'' quoteChar s (singleFrom indent false s) := by
  induction hn : s.length using Nat.strongRecOn generalizing s with
  | _ n ih =>
    obtain ⟨w, r, he, hw, hstop⟩ := Text.exists_run (fun c => !isGap c) s
    have hwg : ∀ c ∈ w, isGap c = false := fun c hc => by simpa using hw c hc
    have hwi : ∀ c ∈ w, IsInk '\'' quoteChar c := fun c hc => isInk_quoteChar (hwg c hc)
    have hwb : ∀ c ∈ w, isBreak c = false := fun c hc => (isGap_eq_false.1 (hwg c hc)).2
    rw [he, singleFrom_ink indent hwb]
    cases r with
    | nil =>
      rw [List.append_nil]
      exact .close hwi
    | cons c r =>
      have hc : isGap c = true := by simpa using hstop c rfl
      obtain ⟨g, t, written, hgt, hg⟩ := IsParagraph.exists_gap (IsParagraph.suffix (he ▸ hs)) hc hi
      obtain ⟨x, tail, rfl, hx⟩ := hg.starts
      have hst : s = w ++ (g ++ t) := by rw [he, hgt]
      have hlt : t.length < n := by
        have hl := congrArg List.length hst
        have hgl := List.length_pos_iff.2 hg.ne_nil
        rw [List.length_append, List.length_append] at hl
        omega
      have hp : IsParagraph t :=
        IsParagraph.suffix (a := w ++ g) (by rw [List.append_assoc, ← hst]; exact hs)
      rw [hgt, hg.single]
      exact .gap hwi hx hg.reads hg.column (stops_singleFrom indent hg.stops)
        (ih t.length hlt hp rfl)

/-- a text between single quotes reads back -/
theorem scan_single {indent : Nat} (hi : 0 < indent) {rest : List Char}
    (hr : rest.head? ≠ some '\'') {s : List Char} (hs : canBeSingle s = true) (hn : '\n' ∉ s)
    (m : Mark) :
    scan '\'' ⟨single indent s ++ rest, m, none⟩ =
      .ok (s, ⟨rest, m.walk (single indent s), none⟩) := by
  have hl : (singleFrom indent false s).length < (single indent s ++ rest).length + 1 := by
    rw [single, List.length_append, List.length_cons]
    omega
  have hsk : Cursor.skip ⟨single indent s ++ rest, m, none⟩ =
      ⟨singleFrom indent false s ++ rest, m.step '\'', none⟩ := Cursor.skip_char rfl _ m
  have hcol : (m.step '\'').column ≠ 0 := Nat.succ_ne_zero _
  rw [scan, hsk]
  exact scanFrom_quotes rfl (run_quote hr) ((isParagraph_of_canBeSingle hs hn).quotes hi) [] hl hcol

/-! ## between double quotes -/

theorem digit?_hexDigit : ∀ d < 16, Text.digit? 16 (hexDigit d) = some d := by decide

theorem isBreak_hexDigit : ∀ d < 16, isBreak (hexDigit d) = false := by decide

theorem digitsFrom_append (base n : Nat) (cs ds : List Char) :
    Text.digitsFrom base n (cs ++ ds) =
      (Text.digitsFrom base n cs).bind fun m => Text.digitsFrom base m ds := by
  induction cs generalizing n with
  | nil => rfl
  | cons c cs ih =>
    rw [List.cons_append, Text.digitsFrom, Text.digitsFrom, Option.bind_assoc]
    exact congrArg _ (funext fun d => ih _)

theorem length_hex (w n : Nat) : (hex w n).length = w := by
  induction w generalizing n with
  | zero => rfl
  | succ w ih => rw [hex, List.length_append, ih]; rfl

theorem isBreak_of_mem_hex {w n : Nat} {c : Char} (h : c ∈ hex w n) : isBreak c = false := by
  induction w generalizing n with
  | zero => cases h
  | succ w ih =>
    rw [hex, List.mem_append, List.mem_singleton] at h
    rcases h with h | rfl
    · exact ih h
    · exact isBreak_hexDigit _ (Nat.mod_lt _ (by decide))

theorem digitsFrom_hex (k w n : Nat) :
    Text.digitsFrom 16 k (hex w n) = some (k * Nat.pow 16 w + n % Nat.pow 16 w) := by
  induction w generalizing n with
  | zero =>
    show some k = some (k * 1 + n % 1)
    rw [Nat.mul_one, Nat.mod_one, Nat.add_zero]
  | succ w ih =>
    have hd := digit?_hexDigit (n % 16) (Nat.mod_lt _ (by decide))
    have hpow : Nat.pow 16 (w + 1) = 16 * Nat.pow 16 w := Nat.pow_succ'
    rw [hex, digitsFrom_append, ih, Option.bind_some, Text.digitsFrom, hd, Option.bind_some,
      Text.digitsFrom, hpow, Nat.mod_mul]
    refine congrArg some ?_
    rw [Nat.add_mul, Nat.mul_assoc, Nat.mul_comm (Nat.pow 16 w) 16]
    omega

theorem numbered_hex {start : Mark} {w : Nat} {c : Char} (h : c.toNat < Nat.pow 16 w)
    (t : List Char) (m : Mark) :
    numbered start w ⟨hex w c.toNat ++ t, m, none⟩ =
      .ok (c, ⟨t, m.walk (hex w c.toNat), none⟩) := by
  have hl := length_hex w c.toNat
  have ht : (hex w c.toNat ++ t).take w = hex w c.toNat := List.take_left' hl
  have hd : Text.digitsFrom 16 0 (hex w c.toNat) = some c.toNat := by
    rw [digitsFrom_hex, Nat.zero_mul, Nat.zero_add, Nat.mod_eq_of_lt h]
  have ha : Cursor.advance w ⟨hex w c.toNat ++ t, m, none⟩ =
      ⟨t, m.walk (hex w c.toNat), none⟩ := by
    have ha := Cursor.advance_run (fun d hd => isBreak_of_mem_hex (w := w) (n := c.toNat) hd) t m
    rwa [hl] at ha
  unfold numbered
  dsimp only
  rw [ht, if_pos hl, hd]
  dsimp only
  rw [dif_pos (Utf8.isValidChar_toNat c), Utf8.ofNatAux_toNat, ha]
  rfl

theorem run_escape {start : Mark} {c x : Char} {r t : List Char} {m : Mark}
    (hx : isBreak x = false) (he : escape start ⟨'\\' :: x :: (r ++ t), m, none⟩ =
      .ok (c, ⟨t, m.walk ('\\' :: x :: r), none⟩)) (fuel : Nat) :
    run '"' start (fuel + 1) ⟨'\\' :: x :: r ++ t, m, none⟩ =
      run.go '"' start (.ok (c, ⟨t, m.walk ('\\' :: x :: r), none⟩)) fuel := by
  rw [List.cons_append, List.cons_append, run]
  show (if isBreak x = true then _ else
    run.go '"' start (escape start ⟨'\\' :: x :: (r ++ t), m, none⟩) fuel) = _
  rw [if_neg (by rw [hx]; exact Bool.false_ne_true), he]

theorem escape_letter (start : Mark) {c x : Char} (h : letters.lookup c = some x) (t : List Char)
    (m : Mark) :
    isBreak x = false ∧
      escape start ⟨'\\' :: x :: t, m, none⟩ = .ok (c, ⟨t, m.walk ['\\', x], none⟩) := by
  have hall : ∀ p ∈ letters, isBreak p.2 = false ∧ escaped? p.2 = some p.1 := by decide
  have hm : (c, x) ∈ letters := by
    obtain ⟨l₁, l₂, hl, -⟩ := List.lookup_eq_some_iff.1 h
    rw [hl]
    exact List.mem_append_right _ List.mem_cons_self
  obtain ⟨hb, he⟩ := hall (c, x) hm
  have ha : Cursor.advance 2 ⟨'\\' :: x :: t, m, none⟩ = ⟨t, m.walk ['\\', x], none⟩ :=
    Cursor.advance_run (s := ['\\', x]) (by simp [hb]; decide) t m
  refine ⟨hb, ?_⟩
  unfold escape
  simp only [he, ha]

theorem escape_hex {start : Mark} {x c : Char} {w : Nat} (hx : escaped? x = none)
    (hw : codeLength? x = some w) (hb : isBreak x = false) (hc : c.toNat < Nat.pow 16 w)
    (t : List Char) (m : Mark) :
    escape start ⟨'\\' :: x :: (hex w c.toNat ++ t), m, none⟩ =
      .ok (c, ⟨t, m.walk ('\\' :: x :: hex w c.toNat), none⟩) := by
  have ha : Cursor.advance 2 ⟨'\\' :: x :: (hex w c.toNat ++ t), m, none⟩ =
      ⟨hex w c.toNat ++ t, m.walk ['\\', x], none⟩ :=
    Cursor.advance_run (s := ['\\', x]) (by simp [hb]; decide) _ m
  unfold escape
  simp only [hx, hw, ha, numbered_hex hc]
  rfl

theorem isBreak_of_mem_escapeChar {c d : Char} (h : d ∈ escapeChar c) : isBreak d = false := by
  unfold escapeChar at h
  have hex2 : ∀ {x : Char} {w : Nat}, isBreak x = false → d ∈ '\\' :: x :: hex w c.toNat →
      isBreak d = false := fun hx hm => by
    rcases List.mem_cons.1 hm with rfl | hm
    · rfl
    rcases List.mem_cons.1 hm with rfl | hm
    · exact hx
    · exact isBreak_of_mem_hex hm
  split at h
  · next hc =>
    simp only [Bool.and_eq_true, Bool.not_eq_true'] at hc
    rw [List.mem_singleton.1 h]
    exact hc.1.1.2
  split at h
  · next x hx =>
    rcases List.mem_cons.1 h with rfl | h
    · rfl
    · rw [List.mem_singleton.1 h]
      exact (escape_letter .start hx [] .start).1
  split at h
  · exact hex2 rfl h
  split at h
  · exact hex2 rfl h
  · exact hex2 rfl h

theorem exists_escapeChar (c : Char) :
    ∃ x r, escapeChar c = x :: r ∧ (c ≠ ' ' → isGap x = false) := by
  unfold escapeChar
  split
  · next h =>
    simp only [Bool.and_eq_true, Bool.not_eq_true'] at h
    exact ⟨c, [], rfl, fun hc => by rw [isGap, isBlank_eq_false h.1.1.1 hc, h.1.1.2, Bool.or_false]⟩
  split
  · exact ⟨_, _, rfl, fun _ => rfl⟩
  split
  · exact ⟨_, _, rfl, fun _ => rfl⟩
  split
  · exact ⟨_, _, rfl, fun _ => rfl⟩
  · exact ⟨_, _, rfl, fun _ => rfl⟩

theorem escapeChar_ne_nil (c : Char) : escapeChar c ≠ [] := by
  obtain ⟨x, r, he, -⟩ := exists_escapeChar c
  rw [he]
  exact List.cons_ne_nil _ _

/-- every character but the space is read from its escape, or as itself -/
theorem run_escapeChar {start : Mark} {c : Char} (hc : c ≠ ' ') (fuel : Nat) (t : List Char)
    (m : Mark) :
    run '"' start (fuel + 1) ⟨escapeChar c ++ t, m, none⟩ =
      run.go '"' start (.ok (c, ⟨t, m.walk (escapeChar c), none⟩)) fuel := by
  unfold escapeChar
  split
  · next h =>
    simp only [Bool.and_eq_true, Bool.not_eq_true', decide_eq_true_eq] at h
    obtain ⟨⟨⟨hp, hb⟩, hq⟩, hs⟩ := h
    rw [List.singleton_append, run]
    show (if (isBlank c || isBreak c) = true then _ else if c = '"' then _ else
      if ('"' = '"' && c = '\\') = true then _ else
      run.go '"' start (.ok (c, Cursor.skip ⟨c :: t, m, none⟩)) fuel) = _
    rw [if_neg (by rw [hb, isBlank_eq_false hp hc]; exact Bool.false_ne_true), if_neg hq,
      if_neg (by rw [decide_eq_false hs, Bool.and_false]; exact Bool.false_ne_true),
      Cursor.skip_char hb]
    rfl
  split
  · next x hx =>
    obtain ⟨hb, he⟩ := escape_letter start hx t m
    exact run_escape (r := []) hb he fuel
  have hlt := Utf8.toNat_lt c
  have hpow : Nat.pow 16 2 = 0x100 ∧ Nat.pow 16 4 = 0x10000 ∧ Nat.pow 16 8 = 0x100000000 :=
    ⟨rfl, rfl, rfl⟩
  split
  · next h => exact run_escape rfl (escape_hex rfl rfl rfl (w := 2) (by omega) t m) fuel
  split
  · next h => exact run_escape rfl (escape_hex rfl rfl rfl (w := 4) (by omega) t m) fuel
  · exact run_escape rfl (escape_hex rfl rfl rfl (w := 8) (by omega) t m) fuel

theorem isInk_escapeChar {c : Char} (h : c ≠ ' ') : IsInk '"' escapeChar c where
  ne_nil := escapeChar_ne_nil c
  unbroken _ hd := isBreak_of_mem_escapeChar hd
  step _ fuel t m := run_escapeChar h fuel t m

theorem stops_double {t : List Char} (ht : Text.Stops isSpace t) (rest : List Char) :
    Text.Stops isGap (t.flatMap escapeChar ++ '"' :: rest) := by
  cases t with
  | nil => exact Text.stops_cons rfl
  | cons c t =>
    have hc : c ≠ ' ' := of_decide_eq_false (ht c rfl)
    obtain ⟨x, r, he, hx⟩ := exists_escapeChar c
    rw [List.flatMap_cons, he]
    exact Text.stops_cons (hx hc)

theorem flatMap_escapeChar_pad (k : Nat) : (pad k).flatMap escapeChar = pad k := by
  induction k with
  | zero => rfl
  | succ k ih =>
    have hp : pad (k + 1) = ' ' :: pad k := List.replicate_succ
    have hs : escapeChar ' ' = [' '] := by decide
    rw [hp, List.flatMap_cons, ih, hs]
    rfl

theorem quotes_double (s : List Char) :
    Quotes '"' escapeChar s (s.flatMap escapeChar ++ ['"']) := by
  induction hn : s.length using Nat.strongRecOn generalizing s with
  | _ n ih =>
    obtain ⟨w, r, he, hw, hstop⟩ := Text.exists_run (fun c => !isSpace c) s
    have hwi : ∀ c ∈ w, IsInk '"' escapeChar c := fun c hc =>
      isInk_escapeChar (by simpa [isSpace] using hw c hc)
    cases r with
    | nil =>
      rw [he, List.append_nil]
      exact .close hwi
    | cons c r =>
      have hc : c = ' ' := by simpa [isSpace] using hstop c rfl
      obtain ⟨g, t, hgt, hg, ht⟩ := Text.exists_run isSpace r
      have hpad : ' ' :: g = pad (g.length + 1) := cons_eq_pad hg
      have hst : s = w ++ (pad (g.length + 1) ++ t) := by rw [he, hgt, hc, ← hpad]; rfl
      have hlt : t.length < n := by
        have hl := congrArg List.length hst
        rw [List.length_append, List.length_append, length_pad] at hl
        omega
      have hcol : ∀ m : Mark, m.column ≠ 0 → (m.walk (pad (g.length + 1))).column ≠ 0 := by
        intro m hm
        rw [Mark.column_walk_run fun d hd => isBreak_of_mem_pad hd]
        omega
      have hstops : ∀ rest, Text.Stops isGap (t.flatMap escapeChar ++ ['"'] ++ rest) := by
        intro rest
        rw [List.append_assoc]
        exact stops_double ht rest
      rw [hst, List.flatMap_append, List.flatMap_append, flatMap_escapeChar_pad, List.append_assoc,
        List.append_assoc]
      exact .gap hwi rfl (reads_spaces (g.length + 1)) hcol hstops (ih t.length hlt t rfl)

theorem scan_double (s rest : List Char) (m : Mark) :
    scan '"' ⟨double s ++ rest, m, none⟩ = .ok (s, ⟨rest, m.walk (double s), none⟩) := by
  have hl : (s.flatMap escapeChar ++ ['"']).length < (double s ++ rest).length + 1 := by
    simp only [double, List.length_append, List.length_cons]
    omega
  have hsk : Cursor.skip ⟨double s ++ rest, m, none⟩ =
      ⟨s.flatMap escapeChar ++ ['"'] ++ rest, m.step '"', none⟩ := Cursor.skip_char rfl _ m
  have hcol : (m.step '"').column ≠ 0 := Nat.succ_ne_zero _
  have hclose : ∀ fuel m', run '"' m (fuel + 1) ⟨'"' :: rest, m', none⟩ =
      .ok ([], false, ⟨'"' :: rest, m', none⟩) := fun fuel m' => by
    rw [run]
    rfl
  rw [scan, hsk]
  exact scanFrom_quotes rfl hclose (quotes_double s) [] hl hcol

end MachineSpec.Yaml.Quoted
