import MachineSpec.Proofs.Yaml.BlockScalar
import MachineSpec.Proofs.Yaml.Frontier
import MachineSpec.Proofs.Yaml.PlainScalar
import MachineSpec.Proofs.Yaml.QuotedScalar

/-!
# Tokens of scalars

A scalar that stands right of the margin is one token in whichever form it is written, and the next
token starts at the indentation of the next line.

* `styleOf_spec`   what the form of a text says of it
* `At.plain`, `At.quoted`, `At.block`   a scalar of each form
* `At.write`       a scalar in its form
* `starts_write`   where a scalar can start
-/

namespace MachineSpec.Yaml

open Quoting Frontier

namespace Place

section Scalars

variable {p : Place} {rest : List Char} {column margin n : Nat} {outer : List Nat}
  {allowed : Bool} {more : List Token.Kind}

theorem stepAt_plain {s : Frontier} {x : Char} {r : List Char} (hf : s.inFlow = false)
    (hg : isGap x = false) (hi : indicators.contains x = false)
    (ho : openIndicators.contains x = true → startsBlank r = false) :
    s.stepAt x r = s.stepPlain := by
  have hx : ∀ c ∈ indicators, x ≠ c := fun c hc he => by
    rw [he, List.contains_iff_mem.2 hc] at hi
    cases hi
  have hopen : ∀ c ∈ openIndicators, (decide (x = c) && startsBlank r) = false := fun c hc => by
    by_cases he : x = c
    · rw [ho (he ▸ List.contains_iff_mem.2 hc), Bool.and_false]
    · rw [decide_eq_false he, Bool.false_and]
  unfold stepAt
  simp only [hf, Bool.false_or, hopen '-' (by decide), hopen '?' (by decide),
    hopen ':' (by decide), hx '[' (by decide), hx '\x7b' (by decide), hx ']' (by decide),
    hx '\x7d' (by decide), hx ',' (by decide), hx '*' (by decide), hx '&' (by decide),
    hx '!' (by decide), hx '|' (by decide), hx '>' (by decide), hx '\'' (by decide),
    hx '"' (by decide), if_false, Bool.false_eq_true, decide_false, Bool.false_and]
  rw [isGap] at hg
  rw [hg, hi]
  split
  · rfl
  · next hc =>
    have ho' : openIndicators.contains x = false := by
      cases hc' : openIndicators.contains x with
      | false => rfl
      | true =>
        rw [hc', Bool.not_false, Bool.and_true, Bool.or_true] at hc
        exact absurd rfl hc
    rw [ho']
    rfl

theorem stepPlain_eq {c d : Cursor} {text : List Char} {broken : Bool} {held : List Token}
    {released : Nat} (h : Plain.scan false margin c = .ok ⟨text, broken, d⟩) :
    stepPlain (Place.frontier ⟨c, none, allowed⟩ margin outer held released) =
      .ok (Place.frontier ⟨d, noted allowed (released + held.length) margin c.mark, broken⟩ margin
        outer (held ++ [⟨.scalar .plain (String.ofList text), c.mark, d.mark⟩]) released) := by
  unfold stepPlain
  rw [noteKey_eq]
  show (Plain.scan false margin c >>= _) = _
  rw [h]
  rfl

theorem stepNode_quoted {c d : Cursor} {text : List Char} {quote : Char} {style : Style}
    {held : List Token} {released : Nat} (h : Quoted.scan quote c = .ok (text, d)) :
    stepNode (Place.frontier ⟨c, none, allowed⟩ margin outer held released)
        (readQuoted style quote) =
      .ok (Place.frontier ⟨d, noted allowed (released + held.length) margin c.mark, false⟩ margin
        outer (held ++ [⟨.scalar style (String.ofList text), c.mark, d.mark⟩]) released) := by
  unfold stepNode
  rw [noteKey_eq]
  show ((Quoted.scan quote c >>= _) >>= _) = _
  rw [h]
  rfl

theorem stepBlock_eq {c d : Cursor} {text : List Char} {held : List Token} {released : Nat}
    (h : BlockScalar.scan true margin c = .ok (text, d)) :
    stepBlock (Place.frontier ⟨c, none, allowed⟩ margin outer held released) .literal =
      .ok (Place.frontier ⟨d, none, true⟩ margin outer
        (held ++ [⟨.scalar .literal (String.ofList text), c.mark, d.mark⟩]) released) := by
  unfold stepBlock
  rw [dropKey_none]
  show (BlockScalar.scan true margin c >>= _) = _
  rw [h]
  rfl

theorem head_of_canBePlain {x : Char} {t : List Char} (h : canBePlain (x :: t) = true) :
    isGap x = false ∧ indicators.contains x = false ∧ x ≠ '\uFEFF' ∧
      ∀ tail, openIndicators.contains x = true → startsBlank (t ++ '\n' :: tail) = false := by
  obtain ⟨hp, hb, hsp, -, hi, -⟩ := canBePlain_iff.1 h
  have hpx := hp x List.mem_cons_self
  have hx : x ≠ ' ' := fun he => hsp (by rw [he]; rfl)
  obtain ⟨hind, ho⟩ := Bool.or_eq_false_iff.1 hi
  refine ⟨?_, hind, ?_, fun tail hopen => ?_⟩
  · rw [isGap, isBlank_eq_false hpx hx, hb x List.mem_cons_self, Bool.or_false]
  · rintro rfl
    cases hpx
  · rw [hopen, Bool.true_and] at ho
    cases t with
    | nil => cases ho
    | cons y t => exact ho

theorem starts_plain {s : List Char} (hs : canBePlain s = true) (hne : s ≠ []) (tail : List Char) :
    Starts (s ++ '\n' :: tail) := by
  obtain ⟨x, t, rfl⟩ := List.exists_cons_of_ne_nil hne
  obtain ⟨hg, hi, hbom, -⟩ := head_of_canBePlain hs
  intro y hy
  cases hy
  refine ⟨hg, ?_, hbom⟩
  rintro rfl
  cases hi

/-- right of the first column, a text that can be plain starts a plain scalar -/
theorem act_plain {s : List Char} (hs : canBePlain s = true) (hne : s ≠ []) {m : Mark}
    (hm : m.column ≠ 0) (tail : List Char) (held : List Token) (released : Nat) :
    act (Place.frontier ⟨⟨s ++ '\n' :: tail, m, none⟩, none, allowed⟩ margin outer held released) =
      stepPlain (Place.frontier ⟨⟨s ++ '\n' :: tail, m, none⟩, none, allowed⟩ margin outer held
        released) := by
  obtain ⟨x, t, rfl⟩ := List.exists_cons_of_ne_nil hne
  obtain ⟨hg, hi, -, ho⟩ := head_of_canBePlain hs
  have hpercent : x ≠ '%' := by
    rintro rfl
    cases hi
  rw [List.cons_append, act_eq rfl hpercent (Cursor.isDocumentIndicator_of_column hm)]
  exact stepAt_plain rfl hg hi (ho tail)

/-- a plain text right of the margin, at the end of its line -/
theorem At.plain {s : List Char} (hs : canBePlain s = true) (hne : s ≠ [])
    (h : p.At (s ++ '\n' :: (pad n ++ rest)) column allowed) (hm : margin ≤ column)
    (hn : n < margin) (hr : Starts rest) (hnext : Next margin outer rest n more) :
    p.Yields margin outer (.scalar .plain (String.ofList s) :: more) := by
  refine h.yields margin outer (Nat.le_succ_of_le hm) (by simp) fun m hcol held released => ?_
  obtain ⟨hcol', hline⟩ := Mark.walk_newline m s n
  have hpos : margin ≤ m.column := hcol ▸ hm
  have hscan := Plain.scan_line hn hr.stops hs hne hpos
  refine ⟨⟨⟨rest, m.walk (s ++ '\n' :: pad n), none⟩, none, true⟩,
    ⟨.scalar .plain (String.ofList s), m, m.walk (s ++ '\n' :: pad n)⟩, ?_, rfl, ?_, ?_⟩
  · rw [act_plain hs hne (by omega), stepPlain_eq hscan]
    exact settleKeys_later (loose_noted hpos allowed _) hline
  · show rest.length < (s ++ '\n' :: (pad n ++ rest)).length
    simp only [List.length_append, List.length_cons]
    omega
  · exact hnext _ (at_here hr hcol')

theorem At.quoted {style : Style} {quote : Char} {written s : List Char}
    (hstep : ∀ f : Frontier, ∀ r, f.stepAt quote r = f.stepNode (readQuoted style quote))
    (hq : quote ≠ '%') (hw : written.head? = some quote)
    (hscan : ∀ m, Quoted.scan quote ⟨written ++ '\n' :: (pad n ++ rest), m, none⟩ =
      .ok (s, ⟨'\n' :: (pad n ++ rest), m.walk written, none⟩))
    (h : p.At (written ++ '\n' :: (pad n ++ rest)) column allowed) (hm : margin ≤ column)
    (hn : n < margin) (hr : Starts rest) (hnext : Next margin outer rest n more) :
    p.Yields margin outer (.scalar style (String.ofList s) :: more) := by
  refine h.yields margin outer (Nat.le_succ_of_le hm) (by simp) fun m hcol held released => ?_
  obtain ⟨r, rfl⟩ := List.head?_eq_some_iff.1 hw
  let tail := '\n' :: (pad n ++ rest)
  have hpos : margin ≤ m.column := hcol ▸ hm
  obtain ⟨key?, hkey, hloose⟩ := settleKeys_loose (c := ⟨tail, m.walk (quote :: r), none⟩)
    (loose_noted hpos allowed (released + held.length)) false margin outer
    (held ++ [⟨.scalar style (String.ofList s), m, m.walk (quote :: r)⟩]) released
  refine ⟨⟨⟨tail, m.walk (quote :: r), none⟩, key?, false⟩,
    ⟨.scalar style (String.ofList s), m, m.walk (quote :: r)⟩, ?_, rfl, ?_, ?_⟩
  · have hcol0 : m.column ≠ 0 := by omega
    have hs := hscan m
    rw [List.cons_append] at hs ⊢
    rw [act_eq rfl hq (Cursor.isDocumentIndicator_of_column hcol0), hstep, stepNode_quoted hs]
    exact hkey
  · show tail.length < (quote :: r ++ tail).length
    simp only [List.length_append, List.length_cons]
    omega
  · exact hnext _ (at_newline hr (hloose.walk _) n)

theorem At.block {s : List Char} (hs : canBeBlock s = true) (hne : s ≠ [])
    (h : p.At (Quoting.block (margin + 1) s ++ (pad n ++ rest)) column allowed)
    (hm : margin ≤ column) (hn : n < margin) (hr : Starts rest)
    (hnext : Next margin outer rest n more) :
    p.Yields margin outer (.scalar .literal (String.ofList s) :: more) := by
  refine h.yields margin outer (Nat.le_succ_of_le hm) (by simp) fun m hcol held released => ?_
  have hcol0 : m.column ≠ 0 := by omega
  have hpos : 0 < margin := by omega
  have hscan := BlockScalar.scan_block (Nat.le_of_lt hn) hpos hr.stops hs hne m
  let written := Quoting.block (margin + 1) s ++ pad n
  refine ⟨⟨⟨rest, m.walk written, none⟩, none, true⟩,
    ⟨.scalar .literal (String.ofList s), m, m.walk written⟩, ?_, rfl, ?_, ?_⟩
  · obtain ⟨r, hb⟩ : ∃ r, Quoting.block (margin + 1) s = '|' :: r := ⟨_, rfl⟩
    rw [hb] at hscan ⊢
    rw [List.cons_append] at hscan ⊢
    rw [act_eq rfl (by decide) (Cursor.isDocumentIndicator_of_column hcol0)]
    show (stepBlock _ .literal >>= settleKeys) = _
    rw [stepBlock_eq hscan]
    exact hb ▸ rfl
  · rw [List.length_append]
    show rest.length < _ + (pad n ++ rest).length
    rw [List.length_append]
    have hl : 0 < (Quoting.block (margin + 1) s).length := Nat.succ_pos _
    omega
  · exact hnext _ (at_here hr (BlockScalar.column_walk_block (margin + 1) n s m))

theorem styleOf_spec (s : List Char) :
    match styleOf s with
    | .plain => canBePlain s = true ∧ s ≠ []
    | .single => canBeSingle s = true ∧ '\n' ∉ s
    | .double => True
    | .literal => canBeBlock s = true ∧ s ≠ []
    | .folded => False := by
  unfold styleOf
  by_cases hn : s.contains '\n' = true
  · have hne : s ≠ [] := by
      rintro rfl
      cases hn
    rw [if_pos hn]
    cases hb : canBeBlock s with
    | true => exact ⟨rfl, hne⟩
    | false => trivial
  · have hnm : '\n' ∉ s := fun hm => hn (List.contains_iff_mem.2 hm)
    rw [if_neg hn]
    by_cases hp : (canBePlain s && !Sense.isAmbiguous (String.ofList s)) = true
    · rw [if_pos hp]
      obtain ⟨h1, h2⟩ := Bool.and_eq_true_iff.1 hp
      refine ⟨h1, ?_⟩
      rintro rfl
      cases h2
    · rw [if_neg hp]
      cases hs : canBeSingle s with
      | true => exact ⟨rfl, hnm⟩
      | false => trivial

/-- a text right of the margin, in its form -/
theorem At.write {s : List Char}
    (h : p.At (write (margin + 1) s ++ (pad n ++ rest)) column allowed) (hm : margin ≤ column)
    (hn : n < margin) (hr : Starts rest) (hnext : Next margin outer rest n more) :
    p.Yields margin outer (.scalar (styleOf s) (String.ofList s) :: more) := by
  have hspec := styleOf_spec s
  unfold Quoting.write at h
  cases hs : styleOf s with
  | plain =>
    rw [hs] at h hspec
    rw [List.append_assoc] at h
    exact h.plain hspec.1 hspec.2 hm hn hr hnext
  | single =>
    rw [hs] at h hspec
    rw [List.append_assoc] at h
    exact h.quoted (fun _ _ => rfl) (by decide) rfl
      (Quoted.scan_single (Nat.succ_pos margin) (by simp) hspec.1 hspec.2) hm hn hr hnext
  | double =>
    rw [hs, List.append_assoc] at h
    exact h.quoted (fun _ _ => rfl) (by decide) rfl (Quoted.scan_double s _) hm hn hr hnext
  | literal =>
    rw [hs] at h hspec
    exact h.block hspec.1 hspec.2 hm hn hr hnext
  | folded =>
    rw [hs] at hspec
    exact hspec.elim

/-- a written text is no white space, and no comment -/
theorem starts_write (indent : Nat) (s tail : List Char) : Starts (write indent s ++ tail) := by
  have hspec := styleOf_spec s
  have hquote : ∀ {c : Char} {r : List Char}, c ∈ ['\'', '"', '|'] → Starts (c :: r) := by
    intro c r hc x hx
    cases hx
    simp only [List.mem_cons, List.not_mem_nil, or_false] at hc
    rcases hc with rfl | rfl | rfl <;> decide
  unfold write
  cases hs : styleOf s with
  | plain =>
    rw [hs] at hspec
    show Starts (s ++ ['\n'] ++ tail)
    rw [List.append_assoc]
    exact starts_plain hspec.1 hspec.2 tail
  | single => exact hquote (by decide)
  | double => exact hquote (by decide)
  | literal => exact hquote (by decide)
  | folded => exact hquote (by decide)

end Scalars

end Place

end MachineSpec.Yaml
