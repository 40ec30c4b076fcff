import MachineSpec.Proofs.Yaml.Cursor
import MachineSpec.Yaml.Token

/-!
# Steps of the frontier

How tokens come about in written text, one step of the frontier after the other.  What the tokens of
a text are is said of the frontier in front of it, whatever tokens it still holds back.

* `Frontier.Output`      the tokens from a frontier on
* `Output.step`, `Output.close`, `Output.last`   one step more
* `Place`                a frontier without its tokens and its indentation
* `Place.At`             a place from which the next token starts there
* `Place.Yields`         the tokens from a place on
* `Next`                 the tokens from every place that leads there
-/

namespace MachineSpec.Yaml

open Quoting

namespace Frontier

/-- the frontier in front of the next token -/
def prepare (s : Frontier) : Except Fault Frontier := do
  let s ← skipSpace (s.cursor.rest.length + 1) s
  s.settleKeys

/-- the tokens that the next character leads to, once no block is closed in front of it -/
def act (s : Frontier) : Except Fault Frontier := do
  s.cursor.need 4
  match s.cursor.rest with
  | [] => s.stepEnd
  | x :: r =>
    if s.mark.column = 0 && x = '%' then s.stepDirective
    else if s.cursor.isDocumentIndicator then
      s.stepDocumentLine (if x = '-' then .documentStart else .documentEnd)
    else s.stepAt x r

theorem step_eq (s : Frontier) :
    s.step = s.prepare >>= fun s => act (s.dedent (s.mark.column + 1)) := by
  unfold step prepare
  cases skipSpace (s.cursor.rest.length + 1) s with
  | error f => rfl
  | ok t => rfl

theorem step_of_prepare {s t : Frontier} (h : s.prepare = .ok t) :
    s.step = act (t.dedent (t.mark.column + 1)) := by
  rw [step_eq, h]
  rfl

theorem dedent_of_le {s : Frontier} {margin : Nat} (h : s.margin ≤ margin) :
    s.dedent margin = s := by
  unfold dedent
  split
  · rfl
  · cases s.outer with
    | nil => rfl
    | cons m ms => exact if_pos h

def kindsOf (ts : List Token) : List Token.Kind := ts.map (·.kind)

theorem kindsOf_append (ts us : List Token) : kindsOf (ts ++ us) = kindsOf ts ++ kindsOf us :=
  List.map_append

theorem kindsOf_concat (ts : List Token) (t : Token) (kinds : List Token.Kind) :
    kindsOf (ts ++ [t]) ++ kinds = kindsOf ts ++ t.kind :: kinds := by
  rw [kindsOf_append, List.append_assoc]
  rfl

/-- the tokens from a frontier on have these kinds, and no fault is behind them -/
def Output (s : Frontier) (kinds : List Token.Kind) : Prop :=
  ∀ fuel, s.cursor.rest.length < fuel →
    ∃ ts, tokensFrom fuel s = (ts, none) ∧ kindsOf ts = kinds

namespace Output

variable {s t : Frontier} {kinds : List Token.Kind}

/-- only the next step and what is left of the text matter -/
theorem congr (hs : s.step = t.step) (hc : s.cursor = t.cursor) (h : Output t kinds) :
    Output s kinds := by
  intro fuel hf
  obtain ⟨ts, ht, hk⟩ := h fuel (hc ▸ hf)
  cases fuel with
  | zero => exact absurd hf (Nat.not_lt_zero _)
  | succ fuel =>
    refine ⟨ts, ?_, hk⟩
    rw [tokensFrom] at ht ⊢
    rw [hs]
    exact ht

theorem step (h : (s.step >>= settleKeys) = .ok t) (he : t.isAtEnd = false)
    (hl : t.cursor.rest.length < s.cursor.rest.length) (ho : Output t.release.2 kinds) :
    Output s (kindsOf t.release.1 ++ kinds) := by
  intro fuel hf
  cases fuel with
  | zero => exact absurd hf (Nat.not_lt_zero _)
  | succ fuel =>
    obtain ⟨ts, ht, hk⟩ := ho fuel (Nat.lt_of_lt_of_le hl (Nat.le_of_lt_succ hf))
    refine ⟨t.release.1 ++ ts, ?_, by rw [kindsOf_append, hk]⟩
    have h' : (do (← s.step).settleKeys) = Except.ok t := h
    rw [tokensFrom, h']
    show (if t.isAtEnd = true then _ else _) = _
    rw [he, if_neg Bool.false_ne_true]
    show (t.release.1 ++ (tokensFrom fuel t.release.2).1, (tokensFrom fuel t.release.2).2) = _
    rw [ht]

theorem last (h : (s.step >>= settleKeys) = .ok t) (he : t.isAtEnd = true) :
    Output s (kindsOf t.held) := by
  intro fuel hf
  cases fuel with
  | zero => exact absurd hf (Nat.not_lt_zero _)
  | succ fuel =>
    refine ⟨t.held, ?_, rfl⟩
    have h' : (do (← s.step).settleKeys) = Except.ok t := h
    rw [tokensFrom, h']
    show (if t.isAtEnd = true then _ else _) = _
    rw [he, if_pos rfl]

theorem release_append (t : Frontier) :
    kindsOf t.release.1 ++ kindsOf t.release.2.held = kindsOf t.held := by
  rw [← kindsOf_append]
  exact congrArg kindsOf (List.take_append_drop _ _)

/-- a step that is not the last one: its tokens are released now or held back -/
theorem push (h : (s.step >>= settleKeys) = .ok t) {tok : Token} (ht : t.held.getLast? = some tok)
    (hk : tok.kind ≠ .streamEnd) (hl : t.cursor.rest.length < s.cursor.rest.length)
    (ho : Output t.release.2 (kindsOf t.release.2.held ++ kinds)) :
    Output s (kindsOf t.held ++ kinds) := by
  have he : t.isAtEnd = false := by
    unfold isAtEnd
    rw [ht]
    exact decide_eq_false hk
  have hout := step h he hl ho
  rw [← List.append_assoc, release_append] at hout
  exact hout

end Output

end Frontier

/-! ## places -/

/-- a frontier outside of brackets, without its tokens and its indentation -/
structure Place where
  cursor : Cursor
  key? : Option KeyPlace := none
  keyAllowed : Bool := false

namespace Place

open Frontier

def frontier (p : Place) (margin : Nat) (outer : List Nat) (held : List Token) (released : Nat) :
    Frontier :=
  ⟨p.cursor, margin, outer, p.key?, [], p.keyAllowed, held, released⟩

/-- the next token starts in front of `rest`, at this column; the flag says whether a key may start
there -/
def At (p : Place) (rest : List Char) (column : Nat) (allowed : Bool) : Prop :=
  rest.length ≤ p.cursor.rest.length ∧
    ∃ m : Mark, m.column = column ∧ ∀ margin outer held released,
      (p.frontier margin outer held released).prepare =
        .ok (Place.frontier ⟨⟨rest, m, none⟩, none, allowed⟩ margin outer held released)

/-- the tokens from a place on, whatever is held back -/
def Yields (p : Place) (margin : Nat) (outer : List Nat) (kinds : List Token.Kind) : Prop :=
  ∀ held released, Output (p.frontier margin outer held released) (kindsOf held ++ kinds)

section Steps

variable {p : Place} {rest : List Char} {column margin : Nat} {outer : List Nat} {allowed : Bool}

theorem At.step (h : p.At rest column allowed) :
    ∃ m : Mark, m.column = column ∧ ∀ margin outer held released,
      (p.frontier margin outer held released).step =
        act ((Place.frontier ⟨⟨rest, m, none⟩, none, allowed⟩ margin outer held released).dedent
          (column + 1)) := by
  obtain ⟨-, m, rfl, hm⟩ := h
  exact ⟨m, rfl, fun margin outer held released => step_of_prepare (hm margin outer held released)⟩

theorem output_release {q : Place} {margin : Nat} {outer : List Nat} {kinds : List Token.Kind}
    (h : q.Yields margin outer kinds) (held : List Token) (released : Nat) :
    Output (q.frontier margin outer held released).release.2
      (kindsOf (q.frontier margin outer held released).release.2.held ++ kinds) :=
  h _ _

/-- one token, and the place behind it -/
theorem At.yields (margin' : Nat) (outer' : List Nat) {kind : Token.Kind}
    {kinds : List Token.Kind} (h : p.At rest column allowed) (hm : margin ≤ column + 1)
    (hk : kind ≠ .streamEnd)
    (hstep : ∀ m : Mark, m.column = column → ∀ held released, ∃ q tok,
      (act (Place.frontier ⟨⟨rest, m, none⟩, none, allowed⟩ margin outer held released) >>=
        settleKeys) = .ok (Place.frontier q margin' outer' (held ++ [tok]) released) ∧
      tok.kind = kind ∧ q.cursor.rest.length < rest.length ∧ q.Yields margin' outer' kinds) :
    p.Yields margin outer (kind :: kinds) := by
  intro held released
  obtain ⟨m, hcol, hs⟩ := h.step
  obtain ⟨q, tok, hq, rfl, hl, hy⟩ := hstep m hcol held released
  have hstep' := hs margin outer held released
  rw [dedent_of_le hm] at hstep'
  rw [← hstep'] at hq
  rw [← kindsOf_concat]
  exact Output.push hq List.getLast?_concat hk (Nat.lt_of_lt_of_le hl h.1) (output_release hy _ _)

end Steps

end Place

/-- the tokens from every place that leads there, where a key may start -/
def Next (margin : Nat) (outer : List Nat) (rest : List Char) (column : Nat)
    (kinds : List Token.Kind) : Prop :=
  ∀ p : Place, p.At rest column true → p.Yields margin outer kinds

open Frontier in
/-- a block is closed in front of a token left of it -/
theorem Next.close {margin margin' column : Nat} {outer : List Nat} {rest : List Char}
    {kinds : List Token.Kind} (h : Next margin' outer rest column kinds)
    (hm : column + 1 < margin) :
    Next margin (margin' :: outer) rest column (.blockEnd :: kinds) := by
  intro p hp held released
  obtain ⟨m, hcol, hs⟩ := hp.step
  have hstep : (p.frontier margin (margin' :: outer) held released).step =
      (p.frontier margin' outer (held ++ [⟨.blockEnd, m, m⟩]) released).step := by
    rw [hs, hs]
    show act (if margin ≤ column + 1 then _ else _) = _
    rw [if_neg (by omega)]
    rfl
  have hout := h p hp (held ++ [⟨.blockEnd, m, m⟩]) released
  rw [kindsOf_append, List.append_assoc] at hout
  exact Output.congr hstep rfl hout

/-! ## the way to the next token -/

/-- a token can start here, whatever stands in front of it -/
def Starts (rest : List Char) : Prop :=
  ∀ x, rest.head? = some x → isGap x = false ∧ x ≠ '#' ∧ x ≠ '\uFEFF'

theorem Starts.stops {rest : List Char} (h : Starts rest) : Text.Stops isGap rest :=
  fun x hx => (h x hx).1

namespace Frontier

section Skip

variable {s : Frontier} {c d : Cursor} (hf : s.cursor.fault? = none)
  (hbom : s.cursor.rest.head? ≠ some '\uFEFF')
  (hw : s.cursor.skipWhile (fun x => x = ' ' || (s.inFlow || !s.keyAllowed) && x = '\t') = .ok c)
  (hc : c.skipComment = .ok d) (fuel : Nat)
include hf hbom hw hc

theorem skipSpace_eq :
    skipSpace (fuel + 1) s =
      if d.rest.head?.any isBreak then do
        d.need 2
        skipSpace fuel { s with cursor := d.skipBreak, keyAllowed := s.keyAllowed || !s.inFlow }
      else .ok { s with cursor := d } := by
  have hn : s.cursor.need 1 = .ok () := by rw [Cursor.need, hf]
  have hb : (decide (s.mark.column = 0) &&
      decide (s.cursor.rest.head? = some '\uFEFF')) = false := by
    rw [decide_eq_false hbom, Bool.and_false]
  rw [skipSpace, hn, hb, if_neg Bool.false_ne_true]
  show (s.cursor.need 1 >>= fun _ => _) = _
  rw [hn]
  show (s.cursor.skipWhile _ >>= _) = _
  rw [hw]
  show (c.skipComment >>= _) = _
  rw [hc]
  rfl

end Skip

variable {rest : List Char} {m : Mark} {margin released : Nat} {outer : List Nat}
  {key? : Option KeyPlace} {allowed : Bool} {held : List Token}

theorem skipSpace_pad (hs : Starts rest) {k : Nat} {s : Frontier}
    (hc : s.cursor = ⟨pad k ++ rest, m, none⟩) (fuel : Nat) :
    skipSpace (fuel + 1) s = .ok { s with cursor := ⟨rest, m.walk (pad k), none⟩ } := by
  have hbom : s.cursor.rest.head? ≠ some '\uFEFF' := by
    rw [hc]
    cases k with
    | zero => exact fun h => (hs _ h).2.2 rfl
    | succ k => exact fun h => absurd (Option.some.inj h) (by decide)
  have hstop : Text.Stops (fun x => x = ' ' || (s.inFlow || !s.keyAllowed) && x = '\t') rest := by
    intro x hx
    have hg := (isGap_eq_false.1 (hs x hx).1).1
    have hx : decide (x = ' ') = false ∧ decide (x = '\t') = false := Bool.or_eq_false_iff.1 hg
    simp only [hx.1, hx.2, Bool.and_false, Bool.or_false]
  have hrun := Cursor.skipWhile_run (s := pad k) (m := m)
    (fun c hc => by rw [List.eq_of_mem_replicate hc]; rfl) hstop fun c hc => isBreak_of_mem_pad hc
  have hcomment : Cursor.skipComment ⟨rest, m.walk (pad k), none⟩ =
      .ok ⟨rest, m.walk (pad k), none⟩ := by
    unfold Cursor.skipComment
    split
    · next heq =>
      have hrest : rest = '#' :: _ := heq
      exact absurd rfl (hs '#' (by rw [hrest]; rfl)).2.1
    · rfl
  have hbreak : rest.head?.any isBreak = false := by
    cases rest with
    | nil => rfl
    | cons x r => exact (isGap_eq_false.1 (hs x rfl).1).2
  rw [← hc] at hrun
  rw [skipSpace_eq (by rw [hc]) hbom hrun hcomment]
  show (if rest.head?.any isBreak = true then _ else _) = _
  rw [hbreak, if_neg Bool.false_ne_true]

theorem skipSpace_newline (hs : Starts rest) (n fuel : Nat) :
    skipSpace (fuel + 2)
        (Place.frontier ⟨⟨'\n' :: (pad n ++ rest), m, none⟩, key?, allowed⟩ margin outer held
          released) =
      .ok (Place.frontier ⟨⟨rest, m.walk ('\n' :: pad n), none⟩, key?, true⟩ margin outer held
        released) := by
  have hrun := Cursor.skipWhile_run (m := m) (s := []) (r := '\n' :: (pad n ++ rest))
    (p := fun x => x = ' ' || (false || !allowed) && x = '\t') (by simp)
    (Text.stops_cons (by simp)) (by simp)
  rw [skipSpace_eq (s := Place.frontier ⟨⟨'\n' :: (pad n ++ rest), m, none⟩, key?, allowed⟩ margin
    outer held released) rfl (by simp [Place.frontier]) hrun rfl]
  show skipSpace (fuel + 1) (Place.frontier ⟨⟨pad n ++ rest, m.step '\n', none⟩, key?,
    allowed || true⟩ margin outer held released) = _
  rw [skipSpace_pad hs rfl, Bool.or_true]
  rfl

/-! ## possible keys -/

/-- a place of a possible key that can be given up on a later line -/
def Loose (key? : Option KeyPlace) (m : Mark) : Prop :=
  ∀ k, key? = some k → k.required = false ∧ k.mark.line ≤ m.line

theorem settleKeys_eq (margin : Nat) (outer : List Nat) (held : List Token) (released : Nat)
    (p : Place) :
    settleKeys (p.frontier margin outer held released) =
      ((p.frontier margin outer held released).settle p.key?).map fun key? =>
        Place.frontier ⟨p.cursor, key?, p.keyAllowed⟩ margin outer held released := by
  unfold settleKeys
  show ((p.frontier margin outer held released).settle p.key? >>= _) = _
  cases (p.frontier margin outer held released).settle p.key? with
  | error f => rfl
  | ok k => rfl

theorem Loose.walk {key? : Option KeyPlace} {m : Mark} (h : Loose key? m) (cs : List Char) :
    Loose key? (m.walk cs) := by
  intro k hk
  obtain ⟨hr, hl⟩ := h k hk
  exact ⟨hr, Nat.le_trans hl (Mark.line_le_walk m cs)⟩

theorem settle_stale {s : Frontier} {k : KeyPlace} (h : s.isStale k = true)
    (hr : k.required = false) : s.settle (some k) = .ok none := by
  show (if s.isStale k = true then if k.required = true then _ else _ else _) = _
  rw [if_pos h, if_neg (by rw [hr]; exact Bool.false_ne_true)]

theorem settle_fresh {s : Frontier} {k : KeyPlace} (h : s.isStale k = false) :
    s.settle (some k) = .ok (some k) := by
  show (if s.isStale k = true then _ else _) = _
  rw [if_neg (by rw [h]; exact Bool.false_ne_true)]

theorem settleKeys_later {c : Cursor} {l : Mark} (h : Loose key? l) (hl : l.line < c.mark.line) :
    settleKeys (Place.frontier ⟨c, key?, allowed⟩ margin outer held released) =
      .ok (Place.frontier ⟨c, none, allowed⟩ margin outer held released) := by
  cases key? with
  | none => rfl
  | some k =>
    obtain ⟨hr, hk⟩ := h k rfl
    have hstale : isStale (Place.frontier ⟨c, some k, allowed⟩ margin outer held released) k =
        true := by
      show (decide (k.mark.line < c.mark.line) || _) = true
      rw [decide_eq_true (Nat.lt_of_le_of_lt hk hl), Bool.true_or]
    have hs := settleKeys_eq margin outer held released ⟨c, some k, allowed⟩
    rw [settle_stale hstale hr] at hs
    exact hs

theorem settle_loose {l : Mark} (h : Loose key? l) (s : Frontier) :
    ∃ key?', s.settle key? = .ok key?' ∧ Loose key?' l := by
  cases key? with
  | none => exact ⟨none, rfl, h⟩
  | some k =>
    by_cases hk : s.isStale k = true
    · refine ⟨none, settle_stale hk (h k rfl).1, ?_⟩
      intro k hk
      cases hk
    · exact ⟨some k, settle_fresh (Bool.eq_false_iff.2 hk), h⟩

/-- whatever becomes of a possible key, it may be given up later -/
theorem settleKeys_loose {c : Cursor} {l : Mark} (h : Loose key? l) (allowed : Bool) (margin : Nat)
    (outer : List Nat) (held : List Token) (released : Nat) :
    ∃ key?', settleKeys (Place.frontier ⟨c, key?, allowed⟩ margin outer held released) =
      .ok (Place.frontier ⟨c, key?', allowed⟩ margin outer held released) ∧ Loose key?' l := by
  obtain ⟨key?', hs, hl⟩ := settle_loose h (Place.frontier ⟨c, key?, allowed⟩ margin outer held
    released)
  refine ⟨key?', ?_, hl⟩
  rw [settleKeys_eq, hs]
  rfl

end Frontier

namespace Place

open Frontier

variable {rest : List Char} {m : Mark} {key? : Option KeyPlace} {allowed : Bool}

theorem at_pad (hs : Starts rest) (k : Nat) :
    At ⟨⟨pad k ++ rest, m, none⟩, none, allowed⟩ rest (m.column + k) allowed := by
  refine ⟨by simp, m.walk (pad k), ?_, fun margin outer held released => ?_⟩
  · rw [Mark.column_walk_run fun c hc => isBreak_of_mem_pad hc, length_pad]
  · show (skipSpace _ (Place.frontier _ margin outer held released) >>= settleKeys) = _
    rw [skipSpace_pad hs rfl]
    rfl

theorem at_here (hs : Starts rest) {column : Nat} (hm : m.column = column) :
    At ⟨⟨rest, m, none⟩, none, allowed⟩ rest column allowed :=
  hm ▸ at_pad hs 0

theorem at_space (hs : Starts rest) {column : Nat} (hm : m.column + 1 = column) :
    At ⟨⟨' ' :: rest, m, none⟩, none, allowed⟩ rest column allowed :=
  hm ▸ at_pad hs 1

theorem at_newline (hs : Starts rest) (h : Loose key? m) (n : Nat) :
    At ⟨⟨'\n' :: (pad n ++ rest), m, none⟩, key?, allowed⟩ rest n true := by
  obtain ⟨hcol, hline⟩ := Mark.walk_newline m [] n
  refine ⟨?_, m.walk ('\n' :: pad n), hcol, fun margin outer held released => ?_⟩
  · rw [List.length_cons, List.length_append]
    omega
  · show (skipSpace ((pad n ++ rest).length + 2) (Place.frontier _ margin outer held released) >>=
      settleKeys) = _
    rw [skipSpace_newline hs]
    exact settleKeys_later h hline

end Place

namespace Frontier

variable {x : Char} {r rest : List Char} {m : Mark} {margin released : Nat} {outer : List Nat}
  {key? : Option KeyPlace} {allowed : Bool} {held : List Token}

theorem act_eq {s : Frontier} (hc : s.cursor = ⟨x :: r, m, none⟩) (hx : x ≠ '%')
    (hd : s.cursor.isDocumentIndicator = false) : act s = s.stepAt x r := by
  cases s
  cases hc
  show (if (decide (m.column = 0) && decide (x = '%')) = true then _ else
    if Cursor.isDocumentIndicator ⟨x :: r, m, none⟩ = true then _ else _) = _
  rw [decide_eq_false hx, Bool.and_false, if_neg Bool.false_ne_true, hd,
    if_neg Bool.false_ne_true]

theorem dropKey_none (c : Cursor) :
    dropKey (Place.frontier ⟨c, none, allowed⟩ margin outer held released) =
      .ok (Place.frontier ⟨c, none, allowed⟩ margin outer held released) := rfl

/-- the place that is noted in front of a token: a key may start there, and has to in the margin -/
def noted (allowed : Bool) (number margin : Nat) (m : Mark) : Option KeyPlace :=
  if allowed then some ⟨number, margin = m.column + 1, m⟩ else none

theorem noteKey_eq (c : Cursor) :
    noteKey (Place.frontier ⟨c, none, allowed⟩ margin outer held released) =
      .ok (Place.frontier ⟨c, noted allowed (released + held.length) margin c.mark, allowed⟩ margin
        outer held released) := by
  cases allowed with
  | true => rfl
  | false => rfl

theorem loose_noted (hm : margin ≤ m.column) (allowed : Bool) (number : Nat) :
    Loose (noted allowed number margin m) m := by
  intro k hk
  cases allowed with
  | true =>
    cases hk
    exact ⟨decide_eq_false (by omega), Nat.le_refl _⟩
  | false => cases hk

end Frontier

end MachineSpec.Yaml
