import MachineSpec.Proofs.Yaml.Scalars

/-!
# Tokens of collections

A block sequence in a member of a record has its dashes at the column of the key, so it neither
opens nor closes a block.  A block mapping opens with its first key, which is known for a key only
at its colon.  An empty collection is a pair of brackets.

* `At.brackets`    an empty collection
* `At.dash`        the dash of an item
* `At.key`         a key and its colon
* `At.firstKey`    the same where the key opens a block
* `next_end`       the end of the text
-/

namespace MachineSpec.Yaml.Place

open Quoting Frontier

variable {p : Place} {rest : List Char} {column margin n : Nat} {outer : List Nat}
  {allowed : Bool} {more : List Token.Kind}

/-! ## items -/

theorem advance_one {x : Char} (h : isBreak x = false) (r : List Char) (m : Mark) :
    Cursor.advance 1 ⟨x :: r, m, none⟩ = ⟨r, m.step x, none⟩ :=
  Cursor.advance_run (s := [x]) (fun _ hc => List.mem_singleton.1 hc ▸ h) r m

theorem stepDash_eq {m : Mark} (hm : m.column + 1 ≤ margin) (t : List Char) (held : List Token)
    (released : Nat) :
    stepDash (frontier ⟨⟨'-' :: t, m, none⟩, none, true⟩ margin outer held released) =
      .ok (frontier ⟨⟨t, m.step '-', none⟩, none, true⟩ margin outer
        (held ++ [⟨.blockEntry, m, m.step '-'⟩]) released) := by
  let s := frontier ⟨⟨'-' :: t, m, none⟩, none, true⟩ margin outer held released
  have hindent : s.indent .blockSequenceStart = s := if_pos (by
    show (false || decide (m.column + 1 ≤ margin)) = true
    rw [decide_eq_true hm]
    rfl)
  show ((s.indent .blockSequenceStart).dropKey >>= _) = _
  rw [hindent]
  show Except.ok (pushSigns _ .blockEntry 1) = _
  unfold pushSigns
  show Except.ok (pushTo _ .blockEntry (Cursor.advance 1 ⟨'-' :: t, m, none⟩)) = _
  rw [advance_one rfl]
  rfl

theorem At.dash {tail : List Char} (h : p.At ('-' :: ' ' :: tail) column true)
    (hm : margin = column + 1) (ht : Starts tail)
    (hnext : Next margin outer tail (column + 2) more) :
    p.Yields margin outer (.blockEntry :: more) := by
  refine h.yields margin outer (Nat.le_of_eq hm) (by simp) fun m hcol held released => ?_
  refine ⟨⟨⟨' ' :: tail, m.step '-', none⟩, none, true⟩, ⟨.blockEntry, m, m.step '-'⟩, ?_, rfl,
    Nat.lt_succ_self _, hnext _ ?_⟩
  · have hd : Cursor.isDocumentIndicator ⟨'-' :: ' ' :: tail, m, none⟩ = false := by
      show (decide (m.column = 0) && false) = false
      exact Bool.and_false _
    rw [act_eq rfl (by decide) hd]
    show (stepDash (frontier ⟨⟨'-' :: ' ' :: tail, m, none⟩, none, true⟩ margin outer held
      released) >>= settleKeys) = _
    rw [stepDash_eq (by omega)]
    rfl
  · exact at_space ht (by rw [Mark.step_of_not_break rfl, hcol])

/-! ## keys -/

/-- a key: its characters are those of a word, and there are not too many of them -/
structure IsKey (key : List Char) : Prop where
  word : ∀ c ∈ key, isWordChar c = true
  ne_nil : key ≠ []
  short : key.length ≤ 1024

theorem IsKey.unbroken {key : List Char} (h : IsKey key) : ∀ c ∈ key, isBreak c = false :=
  fun c hc => (isGap_eq_false.1 (isGap_of_isWordChar (h.word c hc))).2

theorem index_walk_word {key : List Char} (h : ∀ c ∈ key, isWordChar c = true) (m : Mark) :
    (m.walk key).index = m.index + key.length := by
  induction key generalizing m with
  | nil => rfl
  | cons c key ih =>
    have hc := h c List.mem_cons_self
    have hb : isBreak c = false := (isGap_eq_false.1 (isGap_of_isWordChar hc)).2
    have hn := (toNat_of_isWordChar hc).2
    have hs : Utf8.size c = 1 := by
      rw [Utf8.size, Utf8.encodeChar_one (by omega)]
      rfl
    rw [Mark.walk_cons, ih fun d hd => h d (List.mem_cons_of_mem _ hd),
      Mark.step_of_not_break hb, hs, List.length_cons]
    show m.index + 1 + key.length = m.index + (key.length + 1)
    omega

theorem isStale_key {key : List Char} (hk : IsKey key) {s : Frontier} {k : KeyPlace}
    (hs : s.mark = k.mark.walk key) : s.isStale k = false := by
  unfold isStale
  rw [hs, Mark.line_walk_run hk.unbroken, index_walk_word hk.word,
    decide_eq_false (Nat.lt_irrefl _), decide_eq_false (by have := hk.short; omega)]
  rfl

theorem act_key {key tail : List Char} (hk : IsKey key) (m : Mark) (held : List Token)
    (released : Nat) :
    act (frontier ⟨⟨key ++ ':' :: tail, m, none⟩, none, true⟩ margin outer held released) =
      stepPlain (frontier ⟨⟨key ++ ':' :: tail, m, none⟩, none, true⟩ margin outer held
        released) := by
  obtain ⟨c, r, rfl⟩ := List.exists_cons_of_ne_nil hk.ne_nil
  have hc := hk.word c List.mem_cons_self
  have hm := not_mem_of_isWordChar hc
  have hi : indicators.contains c = false := by
    rw [← Bool.not_eq_true, List.contains_iff_mem]
    exact fun h => hm (List.mem_append_right _ h)
  have ho : openIndicators.contains c = false := by
    rw [← Bool.not_eq_true, List.contains_iff_mem]
    intro h
    simp only [openIndicators, List.mem_cons, List.not_mem_nil, or_false] at h
    rcases h with rfl | rfl | rfl <;> exact hm (by decide)
  have hp : c ≠ '%' := by
    rintro rfl
    cases hi
  rw [List.cons_append, act_eq rfl hp (Plain.isDocumentIndicator_word hc _ m)]
  exact stepAt_plain rfl (isGap_of_isWordChar hc) hi fun h => by
    rw [ho] at h
    cases h

/-- the frontier behind a key, which is held back -/
def pending (tail : List Char) (margin : Nat) (outer : List Nat) (key : List Char) (required : Bool)
    (m : Mark) (held : List Token) (released : Nat) : Frontier :=
  frontier ⟨⟨':' :: tail, m.walk key, none⟩, some ⟨released + held.length, required, m⟩, false⟩
    margin outer (held ++ [⟨.scalar .plain (String.ofList key), m, m.walk key⟩]) released

theorem settleKeys_pending {tail key : List Char} (hk : IsKey key) (required : Bool) (m : Mark)
    (held : List Token) (released : Nat) :
    settleKeys (pending tail margin outer key required m held released) =
      .ok (pending tail margin outer key required m held released) := by
  unfold pending
  rw [settleKeys_eq, settle_fresh (isStale_key hk rfl)]
  rfl

theorem release_of_firstHeld {s : Frontier} {n : Nat} (h : s.firstHeld = s.released + n) :
    s.release = (s.held.take n, { s with held := s.held.drop n, released := s.released + n }) := by
  unfold release
  rw [h, Nat.add_sub_cancel_left]

theorem release_pending (margin : Nat) (outer : List Nat) (tail key : List Char)
    (required : Bool) (m : Mark) (held : List Token) (released : Nat) :
    (pending tail margin outer key required m held released).release =
      (held, pending tail margin outer key required m [] (released + held.length)) := by
  have hn : min (released + (held.length + 1)) (released + held.length) = released + held.length :=
    Nat.min_eq_right (by omega)
  have hf : (pending tail margin outer key required m held released).firstHeld =
      released + held.length := by
    show min (released + (held ++ [_]).length) (released + held.length) = _
    rw [List.length_append]
    exact hn
  have ht : (pending tail margin outer key required m held released).held.take held.length =
      held := List.take_left
  have hd : (pending tail margin outer key required m held released).held.drop held.length =
      [⟨.scalar .plain (String.ofList key), m, m.walk key⟩] := List.drop_left
  rw [release_of_firstHeld hf, ht, hd]
  rfl

/-- a word is held back as long as it may be a key -/
theorem At.pending {key tail : List Char} (hk : IsKey key) (ht : startsBlank tail = true)
    (h : p.At (key ++ ':' :: tail) column true) (hm : margin ≤ column + 1)
    (ho : ∀ m : Mark, m.column = column → ∀ number,
      Output (Place.pending tail margin outer key (margin = column + 1) m [] number) more) :
    p.Yields margin outer more := by
  intro held released
  obtain ⟨m, hcol, hs⟩ := h.step
  have hscan := Plain.scan_key margin hk.word hk.ne_nil ht m
  have hstep : (p.frontier margin outer held released).step =
      .ok (Place.pending tail margin outer key (margin = column + 1) m held released) := by
    rw [hs, dedent_of_le hm, act_key hk, stepPlain_eq hscan, ← hcol]
    rfl
  have hsettle : ((p.frontier margin outer held released).step >>= settleKeys) =
      .ok (Place.pending tail margin outer key (margin = column + 1) m held released) := by
    rw [hstep]
    exact settleKeys_pending hk _ m held released
  have hl : (':' :: tail).length < p.cursor.rest.length := by
    have hp := h.1
    have hpos := List.length_pos_iff.2 hk.ne_nil
    rw [List.length_append] at hp
    omega
  have hend : isAtEnd (Place.pending tail margin outer key (margin = column + 1) m held released) =
      false := by
    show (held ++ [_]).getLast?.any _ = false
    rw [List.getLast?_concat]
    rfl
  have hrelease := release_pending margin outer tail key (margin = column + 1) m held released
  have hout : Output _ more → _ :=
    Output.step hsettle hend hl
  rw [hrelease] at hout
  exact hout (ho m hcol _)

theorem stepAt_colon {s : Frontier} {tail : List Char} (ht : startsBlank tail = true) :
    s.stepAt ':' tail = s.stepColon := by
  show (if (true && (s.inFlow || startsBlank tail)) = true then _ else _) = _
  rw [ht, Bool.or_true]
  rfl

theorem step_pending (outer : List Nat) {tail key : List Char} (hk : IsKey key)
    (ht : startsBlank tail = true) {m : Mark} (hm : margin ≤ m.column + 1) (required : Bool)
    (number : Nat) :
    (Place.pending tail margin outer key required m [] number).step =
      stepColon (Place.pending tail margin outer key required m [] number) := by
  have hprepare : prepare (Place.pending tail margin outer key required m [] number) =
      .ok (Place.pending tail margin outer key required m [] number) := by
    have hs : Starts (':' :: tail) := fun x hx => by
      cases hx
      decide
    have hskip : skipSpace (tail.length + 2)
        (Place.pending tail margin outer key required m [] number) =
        .ok (Place.pending tail margin outer key required m [] number) :=
      skipSpace_pad (k := 0) hs rfl _
    show (skipSpace (tail.length + 2) (Place.pending tail margin outer key required m [] number) >>=
      settleKeys) = _
    rw [hskip]
    exact settleKeys_pending hk required m [] number
  have hcol : margin ≤ (m.walk key).column + 1 := by
    rw [Mark.column_walk_run hk.unbroken]
    omega
  have hd : Cursor.isDocumentIndicator ⟨':' :: tail, m.walk key, none⟩ = false := by
    show (decide ((m.walk key).column = 0) && false) = false
    exact Bool.and_false _
  rw [step_of_prepare hprepare, dedent_of_le hcol]
  exact (act_eq rfl (by decide) hd).trans (stepAt_colon ht)

theorem insert_front {s : Frontier} {n : Nat} (h : n = s.released) (kind : Token.Kind)
    (mark : Mark) :
    s.insert n kind mark = { s with held := ⟨kind, mark, mark⟩ :: s.held } := by
  unfold Frontier.insert
  rw [h, Nat.sub_self]
  rfl

section Colon

variable {tail key : List Char} {m : Mark} {number : Nat}

/-- the frontier in front of a colon, once the word behind it is known for a key -/
def keyed (tail : List Char) (margin : Nat) (outer : List Nat) (key : List Char) (required : Bool)
    (m : Mark) (number : Nat) : Frontier :=
  frontier ⟨⟨':' :: tail, m.walk key, none⟩, some ⟨number, required, m⟩, false⟩ margin outer
    [⟨.key, m, m⟩, ⟨.scalar .plain (String.ofList key), m, m.walk key⟩] number

theorem stepColon_pending (required : Bool) :
    stepColon (Place.pending tail margin outer key required m [] number) =
      .ok (pushSigns
        { (keyed tail margin outer key required m number).indentAt ⟨number, required, m⟩ with
          key? := none, keyAllowed := false } .value 1) := by
  have hi := insert_front (s := Place.pending tail margin outer key required m [] number)
    (n := number) rfl .key m
  show Except.ok (pushSigns { (Frontier.insert _ number .key m).indentAt ⟨number, required, m⟩
    with key? := none, keyAllowed := false } .value 1) = _
  rw [hi]
  rfl

/-- where the block of a key is open already, the key becomes a member of it -/
theorem stepColon_open (hm : m.column + 1 ≤ margin) (required : Bool) :
    stepColon (Place.pending tail margin outer key required m [] number) =
      .ok (frontier ⟨⟨tail, (m.walk key).step ':', none⟩, none, false⟩ margin outer
        [⟨.key, m, m⟩, ⟨.scalar .plain (String.ofList key), m, m.walk key⟩,
          ⟨.value, m.walk key, (m.walk key).step ':'⟩] number) := by
  have hopen : (keyed tail margin outer key required m number).indentAt ⟨number, required, m⟩ =
      keyed tail margin outer key required m number := if_pos (by
    show (false || decide (m.column + 1 ≤ margin)) = true
    rw [decide_eq_true hm]
    rfl)
  rw [stepColon_pending, hopen]
  show Except.ok (pushTo _ .value (Cursor.advance 1 ⟨':' :: tail, m.walk key, none⟩)) = _
  rw [advance_one rfl]
  rfl

/-- a key right of the margin opens a block -/
theorem stepColon_opens (hm : margin ≤ m.column) (required : Bool) :
    stepColon (Place.pending tail margin outer key required m [] number) =
      .ok (frontier ⟨⟨tail, (m.walk key).step ':', none⟩, none, false⟩ (m.column + 1)
        (margin :: outer) [⟨.blockMappingStart, m, m⟩, ⟨.key, m, m⟩,
          ⟨.scalar .plain (String.ofList key), m, m.walk key⟩,
          ⟨.value, m.walk key, (m.walk key).step ':'⟩] number) := by
  let s := keyed tail margin outer key required m number
  have hopens : s.indentAt ⟨number, required, m⟩ =
      { s with
        held := ⟨.blockMappingStart, m, m⟩ :: s.held
        margin := m.column + 1
        outer := margin :: outer } := by
    unfold indentAt
    rw [if_neg]
    · rw [insert_front (s := s) (n := number) rfl]
      rfl
    · show ¬ (false || decide (m.column + 1 ≤ margin)) = true
      rw [decide_eq_false (by omega)]
      exact Bool.false_ne_true
  rw [stepColon_pending, hopens]
  show Except.ok (pushTo _ .value (Cursor.advance 1 ⟨':' :: tail, m.walk key, none⟩)) = _
  rw [advance_one rfl]
  rfl

end Colon

/-- the tokens from a place right behind a colon -/
def Behind (margin : Nat) (outer : List Nat) (tail : List Char) (kinds : List Token.Kind) : Prop :=
  ∀ m : Mark, margin ≤ m.column → Yields ⟨⟨tail, m, none⟩, none, false⟩ margin outer kinds

theorem le_column_colon {key : List Char} (hk : IsKey key) {m : Mark} (hm : margin ≤ m.column + 1) :
    margin ≤ ((m.walk key).step ':').column := by
  rw [Mark.step_of_not_break rfl]
  show margin ≤ (m.walk key).column + 1
  rw [Mark.column_walk_run hk.unbroken]
  omega

theorem output_keyed {tail : List Char} {m : Mark} {s : Frontier} {margin' : Nat}
    {outer' : List Nat} {held : List Token} {number : Nat}
    (hs : s.step = .ok (frontier ⟨⟨tail, m, none⟩, none, false⟩ margin' outer' held number))
    (hl : tail.length < s.cursor.rest.length) {t : Token} (hh : held.getLast? = some t)
    (ht : t.kind ≠ .streamEnd) (hm : margin' ≤ m.column) (hy : Behind margin' outer' tail more) :
    Output s (kindsOf held ++ more) := by
  have hsettle : (s.step >>= settleKeys) =
      .ok (frontier ⟨⟨tail, m, none⟩, none, false⟩ margin' outer' held number) := by
    rw [hs]
    rfl
  exact Output.push hsettle hh ht hl (output_release (hy m hm) held number)

theorem At.key {key tail : List Char} (hk : IsKey key) (ht : startsBlank tail = true)
    (h : p.At (key ++ ':' :: tail) column true) (hm : margin = column + 1)
    (hy : Behind margin outer tail more) :
    p.Yields margin outer (.key :: .scalar .plain (String.ofList key) :: .value :: more) := by
  refine h.pending hk ht (Nat.le_of_eq hm) fun m hcol number => ?_
  have hcol' : margin = m.column + 1 := by rw [hm, hcol]
  have hstep := step_pending outer hk ht (Nat.le_of_eq hcol') (margin = column + 1) number
  rw [stepColon_open (Nat.le_of_eq hcol'.symm)] at hstep
  exact output_keyed hstep (Nat.lt_succ_self _) rfl (by simp)
    (le_column_colon hk (Nat.le_of_eq hcol')) hy

theorem At.firstKey {key tail : List Char} (hk : IsKey key) (ht : startsBlank tail = true)
    (h : p.At (key ++ ':' :: tail) column true) (hm : margin ≤ column)
    (hy : Behind (column + 1) (margin :: outer) tail more) :
    p.Yields margin outer
      (.blockMappingStart :: .key :: .scalar .plain (String.ofList key) :: .value :: more) := by
  refine h.pending hk ht (Nat.le_succ_of_le hm) fun m hcol number => ?_
  have hcol' : margin ≤ m.column := hcol ▸ hm
  have hstep := step_pending outer hk ht (Nat.le_succ_of_le hcol') (margin = column + 1) number
  rw [stepColon_opens hcol', hcol] at hstep
  exact output_keyed hstep (Nat.lt_succ_self _) rfl (by simp)
    (le_column_colon hk (Nat.le_of_eq (congrArg (· + 1) hcol.symm))) hy

/-! ## brackets -/

def inside (c : Cursor) (margin : Nat) (outer : List Nat) (key? : Option KeyPlace)
    (held : List Token) (released : Nat) : Frontier :=
  ⟨c, margin, outer, none, [key?], true, held, released⟩

section Brackets

variable {x y : Char} {m : Mark} {key? : Option KeyPlace}
  {tail : List Char} {held : List Token} {released : Nat}

theorem settleKeys_inside (margin : Nat) (outer : List Nat) (held : List Token) (released : Nat)
    {l : Mark} (h : Loose key? l) (c : Cursor) :
    ∃ key?', settleKeys (inside c margin outer key? held released) =
      .ok (inside c margin outer key?' held released) ∧ Loose key?' l := by
  obtain ⟨key?', hs, hl⟩ := settle_loose h (inside c margin outer key? held released)
  refine ⟨key?', ?_, hl⟩
  show (List.mapM (inside c margin outer key? held released).settle [key?] >>= _) = _
  rw [List.mapM_cons, hs]
  rfl

theorem openBracket_eq (hx : isBreak x = false) (kind : Token.Kind) :
    openBracket (frontier ⟨⟨x :: tail, m, none⟩, none, allowed⟩ margin outer held released) kind =
      .ok (inside ⟨tail, m.step x, none⟩ margin outer
        (noted allowed (released + held.length) margin m) (held ++ [⟨kind, m, m.step x⟩])
        released) := by
  unfold openBracket
  rw [noteKey_eq]
  show Except.ok (pushTo _ kind (Cursor.advance 1 ⟨x :: tail, m, none⟩)) = _
  rw [advance_one hx]
  rfl

theorem closeBracket_eq (hy : isBreak y = false) (kind : Token.Kind) :
    closeBracket (inside ⟨y :: tail, m, none⟩ margin outer key? held released) kind =
      .ok (frontier ⟨⟨tail, m.step y, none⟩, key?, false⟩ margin outer
        (held ++ [⟨kind, m, m.step y⟩]) released) := by
  show Except.ok (pushTo _ kind (Cursor.advance 1 ⟨y :: tail, m, none⟩)) = _
  rw [advance_one hy]
  rfl

theorem step_inside (margin : Nat) (outer : List Nat) (held : List Token) (released : Nat)
    {l : Mark} (h : Loose key? l) (hs : Starts (y :: tail)) (hy : y ≠ '%')
    (hd : Cursor.isDocumentIndicator ⟨y :: tail, m, none⟩ = false) :
    ∃ key?', step (inside ⟨y :: tail, m, none⟩ margin outer key? held released) =
      stepAt (inside ⟨y :: tail, m, none⟩ margin outer key?' held released) y tail ∧
        Loose key?' l := by
  obtain ⟨key?', hk, hl⟩ := settleKeys_inside margin outer held released h ⟨y :: tail, m, none⟩
  refine ⟨key?', ?_, hl⟩
  have hprepare : prepare (inside ⟨y :: tail, m, none⟩ margin outer key? held released) =
      .ok (inside ⟨y :: tail, m, none⟩ margin outer key?' held released) := by
    have hskip : skipSpace (tail.length + 2)
        (inside ⟨y :: tail, m, none⟩ margin outer key? held released) =
        .ok (inside ⟨y :: tail, m, none⟩ margin outer key? held released) :=
      skipSpace_pad (k := 0) hs rfl _
    show (skipSpace (tail.length + 2)
      (inside ⟨y :: tail, m, none⟩ margin outer key? held released) >>= settleKeys) = _
    rw [hskip]
    exact hk
  rw [step_of_prepare hprepare]
  exact act_eq rfl hy hd

theorem output_inside {kind : Token.Kind}
    (hstep : ∀ f : Frontier, ∀ r, f.stepAt y r = f.closeBracket kind) (hb : isBreak y = false)
    (hs : ∀ r, Starts (y :: r)) (hy : y ≠ '%')
    (hd : Cursor.isDocumentIndicator ⟨y :: '\n' :: (pad n ++ rest), m, none⟩ = false)
    (hk : kind ≠ .streamEnd) (h : Loose key? m) (hr : Starts rest)
    (hnext : Next margin outer rest n more) (held : List Token) (released : Nat) :
    Output (inside ⟨y :: '\n' :: (pad n ++ rest), m, none⟩ margin outer key? held released)
      (kindsOf held ++ kind :: more) := by
  let tail := '\n' :: (pad n ++ rest)
  obtain ⟨key₁, hstep₁, h₁⟩ := step_inside margin outer held released h (hs tail) hy hd
  obtain ⟨key₂, hkey₂, h₂⟩ := settleKeys_loose (c := ⟨tail, m.step y, none⟩) h₁ false margin outer
    (held ++ [⟨kind, m, m.step y⟩]) released
  have hclose : ((inside ⟨y :: tail, m, none⟩ margin outer key? held released).step >>=
      settleKeys) = .ok (frontier ⟨⟨tail, m.step y, none⟩, key₂, false⟩ margin outer
        (held ++ [⟨kind, m, m.step y⟩]) released) := by
    rw [hstep₁, hstep, closeBracket_eq hb]
    exact hkey₂
  have hkinds := kindsOf_concat held ⟨kind, m, m.step y⟩ more
  rw [← hkinds]
  exact Output.push hclose List.getLast?_concat hk (Nat.lt_succ_self _)
    (output_release (hnext _ (at_newline hr (h₂.walk [y]) n)) _ _)

/-- an empty collection between brackets -/
theorem At.brackets {kx ky : Token.Kind} (hx : ∀ f : Frontier, ∀ r, f.stepAt x r = f.openBracket kx)
    (hy : ∀ f : Frontier, ∀ r, f.stepAt y r = f.closeBracket ky) (hbx : isBreak x = false)
    (hby : isBreak y = false) (hpx : x ≠ '%') (hpy : y ≠ '%') (hsy : ∀ r, Starts (y :: r))
    (hd : ∀ z ∈ [x, y], ∀ r m, Cursor.isDocumentIndicator ⟨z :: r, m, none⟩ = false)
    (hkx : kx ≠ .streamEnd) (hky : ky ≠ .streamEnd)
    (h : p.At (x :: y :: '\n' :: (pad n ++ rest)) column allowed) (hm : margin ≤ column)
    (hr : Starts rest) (hnext : Next margin outer rest n more) :
    p.Yields margin outer (kx :: ky :: more) := by
  intro held released
  obtain ⟨m, hcol, hs⟩ := h.step
  let tail := '\n' :: (pad n ++ rest)
  have hpos : margin ≤ m.column := hcol ▸ hm
  obtain ⟨key?, hkey, hloose⟩ := settleKeys_inside margin outer (held ++ [⟨kx, m, m.step x⟩])
    released (loose_noted hpos allowed (released + held.length)) ⟨y :: tail, m.step x, none⟩
  have hopen : ((p.frontier margin outer held released).step >>= settleKeys) =
      .ok (inside ⟨y :: tail, m.step x, none⟩ margin outer key? (held ++ [⟨kx, m, m.step x⟩])
        released) := by
    rw [hs, dedent_of_le (Nat.le_succ_of_le hm), act_eq rfl hpx (hd x (by simp) _ m), hx,
      openBracket_eq hbx]
    exact hkey
  have hl : (y :: tail).length < (p.frontier margin outer held released).cursor.rest.length :=
    Nat.lt_of_lt_of_le (Nat.lt_succ_self _) h.1
  have hkinds := kindsOf_concat held ⟨kx, m, m.step x⟩ (ky :: more)
  rw [← hkinds]
  refine Output.push hopen List.getLast?_concat hkx hl ?_
  exact output_inside hy hby hsy hpy (hd y (by simp) _ _) hky (hloose.walk [x]) hr hnext _ _

end Brackets

end MachineSpec.Yaml.Place

namespace MachineSpec.Yaml

/-! ## the end -/

open Frontier

theorem act_end {s : Frontier} {m : Mark} (hc : s.cursor = ⟨[], m, none⟩) : act s = s.stepEnd := by
  cases s
  cases hc
  rfl

theorem stepEnd_eq {s t : Frontier} {m : Mark} (hc : s.cursor = ⟨[], m, none⟩) (hm : m.column = 0)
    (hd : s.dedent 0 = t) (hk : t.key? = none) :
    s.stepEnd = .ok (Frontier.push { t with keyAllowed := false } .streamEnd m m) := by
  have hs : { s with cursor := { s.cursor with mark := m } } = s := by
    cases s
    cases hc
    rfl
  have hm' : (if s.mark.column = 0 then s.mark else ⟨s.mark.index, s.mark.line + 1, 0⟩) = m := by
    have hsm : s.mark = m := by
      unfold Frontier.mark
      rw [hc]
    rw [hsm, if_pos hm]
  have hdrop : t.dropKey = .ok t := by
    unfold dropKey
    rw [hk]
  unfold stepEnd
  simp only [hm', hs, hd, hdrop]
  rfl

/-- at the end of the text, the blocks that are open are closed -/
theorem next_of_dedent {margin : Nat} {outer : List Nat} (ends : Mark → List Token)
    (kinds : List Token.Kind) (hm : margin ≤ 1) (hk : ∀ m, kindsOf (ends m) = kinds)
    (hd : ∀ m held released, (Place.frontier ⟨⟨[], m, none⟩, none, true⟩ margin outer held
      released).dedent 0 = Place.frontier ⟨⟨[], m, none⟩, none, true⟩ 0 [] (held ++ ends m)
      released) :
    Next margin outer [] 0 (kinds ++ [.streamEnd]) := by
  intro p hp held released
  obtain ⟨m, hcol, hs⟩ := hp.step
  have hend := stepEnd_eq rfl hcol (hd m held released) rfl
  have hstep : ((p.frontier margin outer held released).step >>= settleKeys) =
      .ok (Place.frontier ⟨⟨[], m, none⟩, none, false⟩ 0 []
        (held ++ ends m ++ [⟨.streamEnd, m, m⟩]) released) := by
    rw [hs, dedent_of_le hm, act_end rfl, hend]
    rfl
  have hlast := Output.last hstep (by
    show (held ++ ends m ++ [_]).getLast?.any _ = true
    rw [List.getLast?_concat]
    rfl)
  change Output _ (kindsOf (held ++ ends m ++ [⟨.streamEnd, m, m⟩])) at hlast
  rw [kindsOf_append, kindsOf_append, hk, List.append_assoc] at hlast
  exact hlast

theorem next_end_of_block : Next 1 [0] [] 0 [.blockEnd, .streamEnd] :=
  next_of_dedent (fun m => [⟨.blockEnd, m, m⟩]) [.blockEnd] (Nat.le_refl 1) (fun _ => rfl)
    fun _ _ _ => rfl

theorem next_end : Next 0 [] [] 0 [.streamEnd] := by
  refine next_of_dedent (fun _ => []) [] (Nat.zero_le 1) (fun _ => rfl) fun m held released => ?_
  rw [List.append_nil]
  rfl

end MachineSpec.Yaml
