import MachineSpec.Json.Schema
import MachineSpec.Proofs.Json.Spelling

/-!
# What the readers of JSON values take

A reader takes a value off the front of a place if and only if the value is spelled there and is of
the sort that the reader is for.  This is shown here for scalars, and for fields, which may be null.

* `skip_eq_cons`, `word_eq_ok`   white space in front of a character, and fixed characters
* `exists_spelled`         the first character of a value
* `Reader.Takes`           a reader and the values that it takes
* `Reader.takes_text`, `takes_flag`, `takes_number`, `takes_choice`   scalars
* `Reader.takes_field`     a value or null
-/

namespace MachineSpec.Json

open Digit (Ends enders ends_nil ends_cons)

/-! ## white space and fixed characters -/

theorem blank_mem_enders {c : Char} (h : c ∈ [' ', '\n', '\t', '\r']) : c ∈ enders :=
  List.mem_append_right [',', ']', '\x7d'] h

theorem ends_blanks {ws : List Char} (h : Blanks ws) {r : Place} (hr : Ends r) :
    Ends (glyphs ws ++ r) := by
  cases ws with
  | nil => exact hr
  | cons w ws => exact ends_cons (blank_mem_enders (h w List.mem_cons_self)) _

theorem skip_char {c : Char} (h : c ∉ [' ', '\n', '\t', '\r']) (r : Place) :
    skip (.char c :: r) = .char c :: r := by
  simp only [List.mem_cons, List.not_mem_nil, or_false, not_or] at h
  exact Text.dropWhile_of_stops (Text.stops_cons (by simp [isBlank, h]))

/-- the next character that is no white space -/
theorem skip_eq_cons {p r : Place} {c : Char} (hc : c ∉ [' ', '\n', '\t', '\r']) :
    skip p = .char c :: r ↔ ∃ ws, Blanks ws ∧ p = glyphs ws ++ .char c :: r := by
  constructor
  · intro h
    obtain ⟨ws, hw, hp⟩ := exists_skip p
    exact ⟨ws, hw, by rw [h] at hp; exact hp⟩
  · rintro ⟨ws, hw, rfl⟩
    rw [skip_glyphs hw, skip_char hc]

theorem skip_eq_nil {p : Place} : skip p = [] ↔ ∃ ws, Blanks ws ∧ p = glyphs ws := by
  constructor
  · intro h
    obtain ⟨ws, hw, hp⟩ := exists_skip p
    exact ⟨ws, hw, by rw [h, List.append_nil] at hp; exact hp⟩
  · rintro ⟨ws, hw, rfl⟩
    have h := skip_glyphs hw []
    rwa [List.append_nil] at h

theorem word_eq_ok {cs : List Char} {p r : Place} : word cs p = .ok r ↔ p = glyphs cs ++ r := by
  induction cs generalizing p with
  | nil => exact ⟨Except.ok.inj, congrArg Except.ok⟩
  | cons c cs ih =>
    cases p with
    | nil => exact ⟨fun h => (by cases h), fun h => (by cases h)⟩
    | cons g p =>
      rw [word]
      split
      · next hg => rw [ih, hg, glyphs_cons, List.cons_append, List.cons.injEq, eq_self, true_and]
      · next hg => exact ⟨fun h => (by cases h), fun h => absurd (List.cons.inj h).1 hg⟩

/-! ## the first character of a value -/

theorem exists_spelling (n : Numeral) :
    ∃ c cs, n.spelling = c :: cs ∧ (c = '-' ∨ c.isDigit = true) := by
  unfold Numeral.spelling
  cases n.minus with
  | true => exact ⟨'-', _, rfl, .inl rfl⟩
  | false =>
    obtain ⟨c, cs, hs, hc⟩ := Text.exists_toString n.whole
    exact ⟨c, _, congrArg (· ++ _) hs, .inr hc⟩

/-- a value does not start as white space or the end of a value does, and only null starts as null
does -/
theorem exists_spelled {v : Value} {cs : List Char} (h : ValueSpelled v cs) :
    ∃ c ds, cs = c :: ds ∧ c ∉ enders ∧ (c = 'n' → v = .null) := by
  cases h with
  | null => exact ⟨_, _, rfl, by decide, fun _ => rfl⟩
  | flag b => cases b <;> exact ⟨_, _, rfl, by decide, fun h => absurd h (by decide)⟩
  | number n =>
    obtain ⟨c, ds, he, hc⟩ := exists_spelling n
    have hne : ∀ d ∈ 'n' :: enders, c ≠ d := by
      rintro d hd rfl
      rcases hc with rfl | hc
      · revert hd
        decide
      · simp only [enders, List.mem_cons, List.not_mem_nil, or_false] at hd
        rcases hd with rfl | rfl | rfl | rfl | rfl | rfl | rfl | rfl <;> exact absurd hc (by decide)
    exact ⟨c, ds, he, fun hm => hne c (List.mem_cons_of_mem _ hm) rfl,
      fun h => absurd h (hne _ List.mem_cons_self)⟩
  | text _ => exact ⟨_, _, rfl, by decide, fun h => absurd h (by decide)⟩
  | list _ => exact ⟨_, _, rfl, by decide, fun h => absurd h (by decide)⟩
  | object _ => exact ⟨_, _, rfl, by decide, fun h => absurd h (by decide)⟩

namespace Reader

theorem colon_eq_ok {p r : Place} :
    colon p = .ok r ↔ ∃ ws, Blanks ws ∧ p = glyphs ws ++ .char ':' :: r := by
  rw [← skip_eq_cons (by decide)]
  unfold colon
  split <;> simp_all

theorem listEnd_eq_ok {p r : Place} :
    listEnd p = .ok r ↔ ∃ ws, Blanks ws ∧ p = glyphs ws ++ .char ']' :: r := by
  rw [← skip_eq_cons (by decide)]
  unfold listEnd
  split
  · simp_all
  · simp_all
  · split <;> simp_all
  · simp_all

theorem objectEnd_eq_ok {p r : Place} :
    objectEnd p = .ok r ↔ ∃ ws, Blanks ws ∧ p = glyphs ws ++ .char '\x7d' :: r := by
  rw [← skip_eq_cons (by decide)]
  unfold objectEnd
  split <;> simp_all

/-! ## readers and values -/

/-- the reader takes the values that `stands` is about off the front of a place, and gives what they
stand for -/
structure Takes {α : Type} (reader : Reader α) (stands : Value → α → Prop) : Prop where
  sound {p r : Place} {a : α} (h : reader p = .ok (a, r)) :
    ∃ ws v cs, Blanks ws ∧ ValueSpelled v cs ∧ stands v a ∧ p = glyphs ws ++ (glyphs cs ++ r)
  complete {ws cs : List Char} {v : Value} {a : α} {r : Place} (blanks : Blanks ws)
    (spelled : ValueSpelled v cs) (h : stands v a) (ends : Ends r) :
    reader (glyphs ws ++ (glyphs cs ++ r)) = .ok (a, r)

section value
variable {α : Type} {expected : String} {start : Reader (Option α)} {a : α} {p r : Place}

theorem of_value (h : value expected start p = .ok (a, r)) :
    ∃ ws q, Blanks ws ∧ start q = .ok (some a, r) ∧ p = glyphs ws ++ q := by
  obtain ⟨ws, hw, hp⟩ := exists_skip p
  unfold value at h
  split at h
  · cases h
  next g gs hs =>
  obtain ⟨⟨a?, r'⟩, ha, h⟩ := exists_of_bind h
  cases a? with
  | none => cases h
  | some a' =>
    cases h
    exact ⟨ws, g :: gs, hw, ha, by rwa [hs] at hp⟩

theorem value_glyphs {ws : List Char} (h : Blanks ws) (p : Place) :
    value expected start (glyphs ws ++ p) = value expected start p := by
  unfold value
  rw [skip_glyphs h]

theorem value_of_start {c : Char} (hc : c ∉ [' ', '\n', '\t', '\r'])
    (h : start (.char c :: p) = .ok (some a, r)) :
    value expected start (.char c :: p) = .ok (a, r) := by
  unfold value
  rw [skip_char hc]
  show (start (.char c :: p) >>= _) = _
  rw [h]
  rfl

end value

/-! ## scalars -/

theorem takes_text : Takes text (StandsFor .text) where
  sound h := by
    obtain ⟨ws, q, hw, hq, rfl⟩ := of_value h
    split at hq
    · obtain ⟨⟨s, r'⟩, hs, heq⟩ := exists_of_bind hq
      cases heq
      obtain ⟨as, ht, rfl⟩ := Quoted.scan_eq_ok.1 hs
      exact ⟨ws, .text s, '"' :: as, hw, .text ht, .text s, rfl⟩
    · cases hq
  complete {_ _ _ _ r} hw hs h _ := by
    cases h with
    | text s =>
    cases hs with
    | @text _ cs ht =>
    unfold text
    rw [value_glyphs hw]
    exact value_of_start (by decide) (bind_ok (Quoted.scan_eq_ok.2 ⟨cs, ht, rfl⟩) rfl)

theorem takes_flag : Takes flag (StandsFor .flag) where
  sound h := by
    obtain ⟨ws, q, hw, hq, rfl⟩ := of_value h
    split at hq
    · obtain ⟨r', hr, heq⟩ := exists_of_bind hq
      cases heq
      rw [word_eq_ok.1 hr]
      exact ⟨ws, .flag true, _, hw, .flag true, .flag true, rfl⟩
    · obtain ⟨r', hr, heq⟩ := exists_of_bind hq
      cases heq
      rw [word_eq_ok.1 hr]
      exact ⟨ws, .flag false, _, hw, .flag false, .flag false, rfl⟩
    · cases hq
  complete hw hs h _ := by
    cases h with
    | flag b =>
    cases hs with
    | flag =>
    unfold flag
    rw [value_glyphs hw]
    cases b <;> exact value_of_start (by decide) rfl

theorem of_fit {n : Number} {d : Document} {p r : Place} (h : fit n p = .ok (some d, r)) :
    ∃ m ≤ 4294967295, n = .natural m ∧ d = .number (UInt32.ofNat m) ∧ r = p := by
  unfold fit at h
  split at h
  · next m =>
    split at h
    · next hm =>
      cases h
      exact ⟨m, Nat.le_of_lt_succ hm, rfl, rfl, rfl⟩
    · cases h
  · cases h
  · cases h

theorem spelling_whole (n : Nat) : Numeral.spelling { whole := n } = (toString n).toList := by
  show [] ++ ((toString n).toList ++ ([] ++ [])) = _
  rw [List.append_nil, List.append_nil, List.nil_append]

theorem fit_natural (n : UInt32) (r : Place) :
    fit (.natural n.toNat) r = .ok (some (.number n), r) := by
  show (if n.toNat < UInt32.size then Except.ok (some (Document.number n.toNat.toUInt32), r)
    else _) = _
  rw [if_pos n.toNat_lt]
  exact congrArg (fun m => Except.ok (some (Document.number m), r)) UInt32.ofNat_toNat

theorem number_toString (n : UInt32) {rest : Place} (h : Ends rest) :
    number (glyphs (toString n.toNat).toList ++ rest) = .ok (.number n, rest) := by
  have hn : n.toNat ≤ wordLimit := Nat.le_trans (Nat.le_of_lt n.toNat_lt) (by decide)
  have hs := Number.scan_toString hn h
  have hsign : ∀ d < 10, d.digitChar ≠ '-' ∧ d.digitChar ∉ [' ', '\n', '\t', '\r'] := by decide
  rw [Text.toList_toString] at hs ⊢
  cases hds : Text.decimals n.toNat with
  | nil => exact absurd hds (Text.decimals_ne_nil _)
  | cons d ds =>
    have hd : d < 10 := Text.lt_of_mem_decimals (n := n.toNat) (by
      rw [hds]
      exact List.mem_cons_self)
    rw [hds] at hs
    change Number.scan true (.char d.digitChar :: (glyphs (ds.map Nat.digitChar) ++ rest)) = _ at hs
    show number (.char d.digitChar :: (glyphs (ds.map Nat.digitChar) ++ rest)) = _
    refine value_of_start (hsign d hd).2 ?_
    split
    · next heq =>
      injection heq with hc _
      injection hc with hc
      exact absurd hc (hsign d hd).1
    · next heq =>
      cases heq
      rw [Digit.value?_digitChar hd, hs]
      exact fit_natural n rest
    · next heq => cases heq

theorem takes_number : Takes number (StandsFor .number) where
  sound h := by
    obtain ⟨ws, q, hw, hq, rfl⟩ := of_value h
    split at hq
    · obtain ⟨⟨n, r'⟩, hn, hf⟩ := exists_of_bind hq
      obtain ⟨m, -, rfl, -⟩ := of_fit hf
      exact absurd (Number.of_scan_natural hn).1 Bool.false_ne_true
    · split at hq
      · obtain ⟨⟨n, r'⟩, hn, hf⟩ := exists_of_bind hq
        obtain ⟨m, hm, rfl, rfl, rfl⟩ := of_fit hf
        rw [(Number.of_scan_natural hn).2, ← spelling_whole]
        exact ⟨ws, _, _, hw, .number _, .number hm, rfl⟩
      · cases hq
    · cases hq
  complete hw hs h ends := by
    cases h with
    | @number n fits =>
    cases hs with
    | number =>
    have hn : (UInt32.ofNat n).toNat = n := UInt32.toNat_ofNat_of_lt' (Nat.lt_succ_of_le fits)
    have hr := number_toString (UInt32.ofNat n) ends
    rw [hn, ← spelling_whole] at hr
    unfold number at hr ⊢
    rw [value_glyphs hw, hr]

theorem takes_null : Takes null fun v _ => v = .null where
  sound h := by
    obtain ⟨ws, q, hw, hq, rfl⟩ := of_value h
    split at hq
    · obtain ⟨r', hr, heq⟩ := exists_of_bind hq
      cases heq
      rw [word_eq_ok.1 hr]
      exact ⟨ws, .null, _, hw, .null, rfl, rfl⟩
    · cases hq
  complete hw hs h _ := by
    subst h
    cases hs
    unfold null
    rw [value_glyphs hw]
    exact value_of_start (by decide) rfl

/-! ## words -/

theorem onlyKey_eq_ok {p r : Place} {s : String} :
    onlyKey p = .ok (s, r) ↔ ∃ ws as, Blanks ws ∧ TextSpelled s.toList as ∧
      p = glyphs ws ++ .char '"' :: (glyphs as ++ r) := by
  constructor
  · intro h
    unfold onlyKey at h
    split at h
    · cases h
    · next hq =>
      obtain ⟨ws, hw, rfl⟩ := (skip_eq_cons (by decide)).1 hq
      obtain ⟨as, ht, rfl⟩ := Quoted.scan_eq_ok.1 h
      exact ⟨ws, as, hw, ht, rfl⟩
    · cases h
    · cases h
  · rintro ⟨ws, as, hw, ht, rfl⟩
    unfold onlyKey
    rw [(skip_eq_cons (by decide)).2 ⟨ws, hw, rfl⟩]
    exact Quoted.scan_eq_ok.2 ⟨as, ht, rfl⟩

theorem known_eq_ok {words : List String} {s : String} {p : Place} {d : Document} :
    known words s p = .ok d ↔ s ∈ words ∧ d = .text s := by
  unfold known
  split
  · next h =>
    exact ⟨fun hd => ⟨List.contains_iff_mem.1 h, (Except.ok.inj hd).symm⟩,
      fun hd => congrArg Except.ok hd.2.symm⟩
  · next h =>
    exact ⟨fun hd => (by cases hd), fun hd => absurd (List.contains_iff_mem.2 hd.1) h⟩

/-- a word as the key of an object whose value is null -/
theorem choice_key {words : List String} {s : String} (known : s ∈ words)
    {ls ks bs ws ns es : List Char} (hl : Blanks ls) (ht : TextSpelled s.toList ks) (hb : Blanks bs)
    (hw : Blanks ws) (hn : ValueSpelled .null ns) (he : Blanks es) (r : Place) :
    choice words (.char '\x7b' :: (glyphs ls ++ .char '"' :: (glyphs ks ++ (glyphs bs ++
      .char ':' :: (glyphs ws ++ (glyphs ns ++ (glyphs es ++ .char '\x7d' :: r))))))) =
      .ok (.text s, r) := by
  have hends : Ends (glyphs es ++ .char '\x7d' :: r) := ends_blanks he (ends_cons (by decide) r)
  have hnull := takes_null.complete (a := ⟨⟩) hw hn rfl hends
  unfold choice
  rw [skip_char (by decide)]
  refine bind_ok (onlyKey_eq_ok.2 ⟨ls, ks, hl, ht, rfl⟩) ?_
  refine bind_ok (known_eq_ok.2 ⟨known, rfl⟩) ?_
  refine bind_ok (colon_eq_ok.2 ⟨bs, hb, rfl⟩) (bind_ok hnull ?_)
  dsimp only
  rw [(skip_eq_cons (by decide)).2 ⟨es, he, rfl⟩]
  rfl

theorem choice_glyphs {ws : List Char} (h : Blanks ws) (words : List String) (p : Place) :
    choice words (glyphs ws ++ p) = choice words p := by
  unfold choice
  rw [skip_glyphs h]

theorem takes_choice (words : List String) : Takes (choice words) (StandsFor (.choice words)) where
  sound h := by
    unfold choice at h
    split at h
    · cases h
    · next hq =>
      obtain ⟨ws, hw, rfl⟩ := (skip_eq_cons (by decide)).1 hq
      obtain ⟨⟨s, r₁⟩, hkey, h₁⟩ := exists_of_bind h
      obtain ⟨d, hknown, h₂⟩ := exists_of_bind h₁
      obtain ⟨r₂, hcolon, h₃⟩ := exists_of_bind h₂
      obtain ⟨⟨_, r₃⟩, hnull, h₄⟩ := exists_of_bind h₃
      obtain ⟨ls, ks, hl, ht, rfl⟩ := onlyKey_eq_ok.1 hkey
      obtain ⟨hs, rfl⟩ := known_eq_ok.1 hknown
      obtain ⟨bs, hb, rfl⟩ := colon_eq_ok.1 hcolon
      obtain ⟨cs, _, ns, hc, hn, rfl, rfl⟩ := takes_null.sound hnull
      dsimp only at h₄
      split at h₄
      · cases h₄
      · next hend =>
        cases h₄
        obtain ⟨es, he, rfl⟩ := (skip_eq_cons (by decide)).1 hend
        refine ⟨ws, .object [(s, .null)], _, hw,
          .object (.member (.first hl) ht hb hc hn (.close he)), .key hs, ?_⟩
        simp [glyphs_append]
      · cases h₄
    · next hq =>
      obtain ⟨ws, hw, rfl⟩ := (skip_eq_cons (by decide)).1 hq
      obtain ⟨⟨s, r₁⟩, hscan, h₁⟩ := exists_of_bind h
      obtain ⟨d, hknown, h₂⟩ := exists_of_bind h₁
      obtain ⟨as, ht, rfl⟩ := Quoted.scan_eq_ok.1 hscan
      obtain ⟨hs, rfl⟩ := known_eq_ok.1 hknown
      cases h₂
      exact ⟨ws, .text s, '"' :: as, hw, .text ht, .word hs, rfl⟩
    · cases h
  complete {_ _ _ _ r} hw hs h _ := by
    rw [choice_glyphs hw]
    cases h with
    | word known =>
      cases hs with
      | @text _ cs ht =>
      refine bind_ok (Quoted.scan_eq_ok.2 ⟨cs, ht, rfl⟩) ?_
      exact bind_ok (known_eq_ok.2 ⟨known, rfl⟩) rfl
    | key known =>
      cases hs with
      | object members =>
      cases members with
      | member lead ht hb hw hn rest =>
      cases lead with
      | first hl =>
      cases rest with
      | close he =>
      simp only [glyphs_cons, glyphs_append, glyphs_nil, List.cons_append, List.append_assoc,
        List.nil_append]
      exact choice_key known hl ht hb hw hn he r

/-! ## fields -/

theorem not_standsFor_null {shape : Shape} {d : Document} : ¬ StandsFor shape .null d := by
  intro h
  cases h

theorem takes_field {shape : Shape} {reader : Reader Document}
    (hr : Takes reader (StandsFor shape)) : Takes (field reader) (FieldStandsFor shape) where
  sound h := by
    unfold field at h
    split at h
    · next hq =>
      obtain ⟨ws, hw, rfl⟩ := (skip_eq_cons (by decide)).1 hq
      obtain ⟨r', hword, heq⟩ := exists_of_bind h
      cases heq
      rw [word_eq_ok.1 hword]
      exact ⟨ws, .null, _, hw, .null, .null shape, rfl⟩
    · obtain ⟨⟨d, r'⟩, hd, heq⟩ := exists_of_bind h
      cases heq
      obtain ⟨ws, v, cs, hw, hs, hv, hp⟩ := hr.sound hd
      exact ⟨ws, v, cs, hw, hs, .value hv, hp⟩
  complete {ws cs _ _ r} hw hs h ends := by
    cases h with
    | null =>
      cases hs
      unfold field
      rw [skip_glyphs hw]
      rfl
    | value hv =>
      obtain ⟨c, ds, rfl, hc, hnull⟩ := exists_spelled hs
      have hread := hr.complete hw hs hv ends
      have hskip : skip (glyphs ws ++ (glyphs (c :: ds) ++ r)) = glyphs (c :: ds) ++ r :=
        (skip_glyphs hw _).trans (skip_char (mt blank_mem_enders hc) _)
      unfold field
      rw [hskip]
      split
      · next heq =>
        obtain rfl := hnull (Glyph.char.inj (List.cons.inj heq).1)
        exact absurd hv not_standsFor_null
      · exact bind_ok hread rfl

end Reader

end MachineSpec.Json
