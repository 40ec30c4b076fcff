import MachineSpec.Json.Reader
import MachineSpec.Json.Value
import MachineSpec.Proofs.Json.Scalars
import MachineSpec.Proofs.Outcome
import MachineSpec.Proofs.Text.Coding

/-!
# What the scanners take

White space, strings and numbers are taken off the front of a place if and only if they are spelled
there.

* `skip_glyphs`, `exists_skip`   white space
* `Quoted.hex4_eq_ok`, `numbered_eq_ok`, `escape_eq_ok`   the number of a character, and what
                                 follows a backslash
* `Quoted.scan_eq_ok`            a string behind its opening quote
* `Number.of_scan_natural`       a number without a sign, a fraction and an exponent
-/

namespace MachineSpec.Json

@[simp] theorem glyphs_nil : glyphs [] = [] := rfl

@[simp]
theorem glyphs_cons (c : Char) (cs : List Char) : glyphs (c :: cs) = .char c :: glyphs cs := rfl

theorem glyphs_injective {cs ds : List Char} (h : glyphs cs = glyphs ds) : cs = ds :=
  (List.map_inj_right fun _ _ => Glyph.char.inj).1 h

/-- fuel for a place suffices for what takes fewer steps than there are characters in front -/
theorem lt_length_glyphs {n : Nat} {cs : List Char} (h : n < cs.length) (r : Place) :
    n < (glyphs cs ++ r).length + 1 := by
  rw [List.length_append, glyphs, List.length_map]
  omega

/-! ## white space -/

theorem isBlank_iff {g : Glyph} :
    isBlank g = true ↔ ∃ c ∈ [' ', '\n', '\t', '\r'], g = .char c := by
  cases g with
  | char c => simp [isBlank, or_assoc]
  | stray b => simp [isBlank]
  | lost text => simp [isBlank]

theorem blanks_nil : Blanks [] := fun _ h => absurd h List.not_mem_nil

theorem blanks_append {a b : List Char} (ha : Blanks a) (hb : Blanks b) : Blanks (a ++ b) :=
  fun c hc => (List.mem_append.1 hc).elim (ha c) (hb c)

/-- white space in front does not matter to what passes over it -/
theorem skip_glyphs {ws : List Char} (h : Blanks ws) (p : Place) :
    skip (glyphs ws ++ p) = skip p := by
  refine List.dropWhile_append_of_pos fun g hg => ?_
  obtain ⟨c, hc, rfl⟩ := List.mem_map.1 hg
  exact isBlank_iff.2 ⟨c, h c hc, rfl⟩

/-- what is passed over is white space -/
theorem exists_skip (p : Place) : ∃ ws, Blanks ws ∧ p = glyphs ws ++ skip p := by
  induction p with
  | nil => exact ⟨[], blanks_nil, rfl⟩
  | cons g p ih =>
    unfold skip at ih ⊢
    cases hg : isBlank g with
    | true =>
      obtain ⟨c, hc, rfl⟩ := isBlank_iff.1 hg
      obtain ⟨ws, hw, hp⟩ := ih
      refine ⟨c :: ws, List.forall_mem_cons.2 ⟨hc, hw⟩, ?_⟩
      rw [List.dropWhile_cons_of_pos hg, glyphs_cons, List.cons_append, ← hp]
    | false =>
      refine ⟨[], blanks_nil, ?_⟩
      rw [List.dropWhile_cons_of_neg (by rw [hg]; exact Bool.false_ne_true)]
      rfl

/-! ## strings -/

namespace Quoted

theorem hexValue?_eq_some {g : Glyph} {n : Nat} :
    hexValue? g = some n ↔ ∃ c, g = .char c ∧ Text.digit? 16 c = some n := by
  cases g <;> simp [hexValue?]

theorem digitsFrom_four (a b c d : Char) :
    Text.digitsFrom 16 0 [a, b, c, d] = (Text.digit? 16 a).bind fun a =>
      (Text.digit? 16 b).bind fun b => (Text.digit? 16 c).bind fun c =>
        (Text.digit? 16 d).bind fun d => some (((a * 16 + b) * 16 + c) * 16 + d) := by
  simp [Text.digitsFrom]

theorem hex4_eq_ok {p r : Place} {n : Nat} :
    hex4 p = .ok (n, r) ↔ ∃ ds, FourDigits n ds ∧ p = glyphs ds ++ r := by
  constructor
  · intro h
    unfold hex4 at h
    split at h
    · next a b c d r' =>
      split at h
      · next ha hb hc hd =>
        obtain ⟨a, rfl, da⟩ := hexValue?_eq_some.1 ha
        obtain ⟨b, rfl, db⟩ := hexValue?_eq_some.1 hb
        obtain ⟨c, rfl, dc⟩ := hexValue?_eq_some.1 hc
        obtain ⟨d, rfl, dd⟩ := hexValue?_eq_some.1 hd
        cases h
        refine ⟨[a, b, c, d], ⟨rfl, ?_⟩, rfl⟩
        rw [digitsFrom_four, da, db, dc, dd]
        rfl
      · cases h
    · cases h
  · rintro ⟨ds, ⟨hl, hn⟩, rfl⟩
    obtain ⟨a, b, c, d, rfl⟩ : ∃ a b c d, ds = [a, b, c, d] := by
      match ds, hl with
      | [a, b, c, d], _ => exact ⟨a, b, c, d, rfl⟩
    rw [digitsFrom_four] at hn
    simp only [Option.bind_eq_some_iff, Option.some.injEq] at hn
    obtain ⟨a', ha, b', hb, c', hc, d', hd, rfl⟩ := hn
    simp [hex4, hexValue?, ha, hb, hc, hd]

theorem digit?_lt {base n : Nat} {c : Char} (h : Text.digit? base c = some n) : n < base := by
  unfold Text.digit? at h
  exact of_decide_eq_true (Option.filter_eq_some_iff.1 h).2

theorem lt_of_fourDigits {n : Nat} {ds : List Char} (h : FourDigits n ds) : n < 0x10000 := by
  obtain ⟨hl, hn⟩ := h
  match ds, hl with
  | [a, b, c, d], _ =>
    rw [digitsFrom_four] at hn
    simp only [Option.bind_eq_some_iff, Option.some.injEq] at hn
    obtain ⟨a', ha, b', hb, c', hc, d', hd, rfl⟩ := hn
    have := digit?_lt ha
    have := digit?_lt hb
    have := digit?_lt hc
    have := digit?_lt hd
    omega

theorem toNat_ofNat {n : Nat} (h : n.isValidChar) : (Char.ofNat n).toNat = n := by
  unfold Char.ofNat
  rw [dif_pos h]
  rfl

/-- the number that two halves are put together to -/
theorem secondHalf_eq_ok {high : Nat} (hh : 0xD800 ≤ high ∧ high ≤ 0xDBFF) {p r : Place}
    {c : Char} :
    secondHalf high p = .ok (c, r) ↔ 0x10000 ≤ c.toNat ∧
      high = 0xD800 + (c.toNat - 0x10000) / 0x400 ∧
      ∃ ds, FourDigits (0xDC00 + (c.toNat - 0x10000) % 0x400) ds ∧
        p = glyphs ('\\' :: 'u' :: ds) ++ r := by
  constructor
  · intro h
    unfold secondHalf at h
    split at h
    · cases h
    · split at h
      · cases h
      · split at h
        · cases h
        · next low r' hx =>
          split at h
          · next hl =>
            injection h with h
            injection h with hc hr
            subst hr
            have hn : c.toNat = 0x10000 + (high - 0xD800) * 0x400 + (low - 0xDC00) := by
              rw [← hc]
              exact toNat_ofNat (.inr ⟨by omega, by omega⟩)
            obtain ⟨ds, hd, rfl⟩ := hex4_eq_ok.1 hx
            have hlow : low = 0xDC00 + (c.toNat - 0x10000) % 0x400 := by omega
            exact ⟨by omega, by omega, ds, hlow ▸ hd, rfl⟩
          · cases h
      · cases h
    · cases h
  · rintro ⟨hw, hhigh, ds, hd, rfl⟩
    have hlow : 0xDC00 ≤ 0xDC00 + (c.toNat - 0x10000) % 0x400 ∧
        0xDC00 + (c.toNat - 0x10000) % 0x400 ≤ 0xDFFF := by omega
    have hn : 0x10000 + (high - 0xD800) * 0x400 +
        (0xDC00 + (c.toNat - 0x10000) % 0x400 - 0xDC00) = c.toNat := by omega
    simp only [secondHalf, glyphs_cons, List.cons_append, hex4_eq_ok.2 ⟨ds, hd, rfl⟩]
    rw [if_pos hlow, hn, Char.ofNat_toNat]

theorem u_notMem_letters (c : Char) : ('u', c) ∉ letters := by simp [letters]

/-- the number of a character, as a whole or in two halves -/
theorem numbered_eq_ok {p r : Place} {c : Char} :
    numbered p = .ok (c, r) ↔
      ∃ cs, CharSpelled c ('\\' :: 'u' :: cs) ∧ p = glyphs cs ++ r := by
  constructor
  · intro h
    unfold numbered at h
    split at h
    · cases h
    next n r' hx =>
    obtain ⟨ds, hd, rfl⟩ := hex4_eq_ok.1 hx
    have hlt := lt_of_fourDigits hd
    split at h
    · cases h
    split at h
    · next hhigh =>
      obtain ⟨hw, hn, es, he, rfl⟩ := (secondHalf_eq_ok hhigh).1 h
      refine ⟨ds ++ '\\' :: 'u' :: es, .halves hw (hn ▸ hd) he, ?_⟩
      rw [glyphs_append, List.append_assoc]
    · injection h with h
      injection h with hc hr
      subst hr
      have hn : c.toNat = n := by
        rw [← hc]
        exact toNat_ofNat (by unfold Nat.isValidChar; omega)
      exact ⟨ds, .number (hn ▸ hd), rfl⟩
  · rintro ⟨cs, hs, rfl⟩
    cases hs with
    | letter named => exact absurd named (u_notMem_letters c)
    | number digits =>
      have hv := Utf8.isValidChar_toNat c
      unfold Nat.isValidChar at hv
      have hlt := lt_of_fourDigits digits
      unfold numbered
      rw [hex4_eq_ok.2 ⟨_, digits, rfl⟩]
      dsimp only
      rw [if_neg (by omega), if_neg (by omega), Char.ofNat_toNat]
    | @halves high low wide first second =>
      have hv := Utf8.toNat_lt c
      unfold numbered
      rw [glyphs_append, List.append_assoc, hex4_eq_ok.2 ⟨_, first, rfl⟩]
      dsimp only
      rw [if_neg (by omega), if_pos (by omega)]
      exact (secondHalf_eq_ok (by omega)).2 ⟨wide, rfl, low, second, rfl⟩

theorem escaped?_eq_some {l c : Char} : escaped? l = some c ↔ (l, c) ∈ letters := by
  constructor
  · intro h
    unfold escaped? at h
    split at h
    · next hl =>
      cases h
      rcases hl with rfl | rfl | rfl <;> decide
    repeat' (split at h; next hl => cases h; cases hl; decide)
    cases h
  · intro h
    simp only [letters, List.mem_cons, Prod.mk.injEq, List.not_mem_nil, or_false] at h
    rcases h with ⟨rfl, rfl⟩ | ⟨rfl, rfl⟩ | ⟨rfl, rfl⟩ | ⟨rfl, rfl⟩ | ⟨rfl, rfl⟩ | ⟨rfl, rfl⟩ |
      ⟨rfl, rfl⟩ | ⟨rfl, rfl⟩ <;> rfl

theorem escape_eq_ok {p r : Place} {c : Char} :
    escape p = .ok (c, r) ↔ ∃ cs, CharSpelled c ('\\' :: cs) ∧ p = glyphs cs ++ r := by
  constructor
  · intro h
    unfold escape at h
    split at h
    · cases h
    · obtain ⟨cs, hs, rfl⟩ := numbered_eq_ok.1 h
      exact ⟨'u' :: cs, hs, rfl⟩
    · next l r' hu =>
      split at h
      · next he =>
        cases h
        exact ⟨[l], .letter (escaped?_eq_some.1 he), rfl⟩
      · cases h
    · cases h
  · rintro ⟨cs, hs, rfl⟩
    have hu : ∀ ds, CharSpelled c ('\\' :: 'u' :: ds) →
        escape (glyphs ('u' :: ds) ++ r) = .ok (c, r) :=
      fun ds hs => numbered_eq_ok.2 ⟨ds, hs, rfl⟩
    cases hs with
    | plain _ backslash _ => exact absurd rfl backslash
    | @letter l named =>
      have hl : l ≠ 'u' := by
        rintro rfl
        exact absurd named (u_notMem_letters c)
      exact escape_of_letter hl (escaped?_eq_some.2 named) r
    | number digits => exact hu _ (.number digits)
    | halves wide first second => exact hu _ (.halves wide first second)

theorem of_piece_char {p r : Place} {c : Char} (h : piece p = .ok (.char c, r)) :
    ∃ cs, CharSpelled c cs ∧ p = glyphs cs ++ r := by
  unfold piece at h
  split at h
  · cases h
  · cases h
  · cases h
  next d r' =>
  split at h
  · cases h
  next hq =>
  split at h
  · next hb =>
    obtain ⟨⟨c', r''⟩, he, heq⟩ := exists_of_bind h
    cases heq
    obtain ⟨cs, hs, rfl⟩ := escape_eq_ok.1 he
    exact ⟨'\\' :: cs, hs, by rw [hb]; rfl⟩
  next hb =>
  split at h
  · cases h
  next hc =>
  cases h
  exact ⟨[_], .plain hq hb (Nat.le_of_not_lt hc), rfl⟩

theorem of_piece_close {p r : Place} (h : piece p = .ok (.close, r)) : p = .char '"' :: r := by
  unfold piece at h
  split at h
  · cases h
  · cases h
  · cases h
  split at h
  · next hq => cases h; rw [hq]
  split at h
  · obtain ⟨_, _, heq⟩ := exists_of_bind h
    cases heq
  split at h
  · cases h
  · cases h

theorem piece_spelled {c : Char} {cs : List Char} (h : CharSpelled c cs) (r : Place) :
    piece (glyphs cs ++ r) = .ok (.char c, r) := by
  have hb : ∀ ds, CharSpelled c ('\\' :: ds) →
      piece (glyphs ('\\' :: ds) ++ r) = .ok (.char c, r) :=
    fun ds hs => piece_of_escape (escape_eq_ok.2 ⟨ds, hs, rfl⟩)
  cases h with
  | plain quote backslash control =>
    show piece (.char c :: r) = _
    rw [piece_char, if_neg quote, if_neg backslash, if_neg (Nat.not_lt.2 control)]
  | letter named => exact hb _ (.letter named)
  | number digits => exact hb _ (.number digits)
  | halves wide first second => exact hb _ (.halves wide first second)

/-- a string with a byte that is no character is never taken -/
theorem scanFrom_stray (q : Place × Nat) (fuel : Nat) (p : Place) (v : List Char × Place) :
    scanFrom (some q) fuel p ≠ .ok v := by
  induction fuel generalizing q p v with
  | zero => exact fun h => by cases h
  | succ fuel ih =>
    intro h
    rw [scanFrom] at h
    obtain ⟨⟨piece, r⟩, -, h⟩ := exists_of_bind h
    cases piece with
    | close => cases h
    | stray => exact ih _ _ _ h
    | char c =>
      obtain ⟨v', h', -⟩ := exists_of_bind h
      exact ih _ _ _ h'

theorem of_scanFrom {fuel : Nat} {p r : Place} {cs : List Char}
    (h : scanFrom none fuel p = .ok (cs, r)) : ∃ as, TextSpelled cs as ∧ p = glyphs as ++ r := by
  induction fuel generalizing p cs with
  | zero => cases h
  | succ fuel ih =>
    rw [scanFrom] at h
    obtain ⟨⟨next, q⟩, hp, h⟩ := exists_of_bind h
    cases next with
    | close =>
      cases h
      exact ⟨['"'], .close, of_piece_close hp⟩
    | stray => exact absurd h (scanFrom_stray _ _ _ _)
    | char c =>
      obtain ⟨⟨cs', r'⟩, hs, heq⟩ := exists_of_bind h
      cases heq
      obtain ⟨as, hc, rfl⟩ := of_piece_char hp
      obtain ⟨bs, ht, rfl⟩ := ih hs
      exact ⟨as ++ bs, .char hc ht, by rw [glyphs_append, List.append_assoc]⟩

theorem scanFrom_spelled {cs as : List Char} (h : TextSpelled cs as) (r : Place) {fuel : Nat}
    (hf : cs.length < fuel) : scanFrom none fuel (glyphs as ++ r) = .ok (cs, r) := by
  induction h generalizing fuel with
  | close =>
    obtain ⟨fuel, rfl⟩ := Nat.exists_eq_add_one.2 hf
    rfl
  | char char _ ih =>
    obtain ⟨fuel, rfl⟩ := Nat.exists_eq_add_one.2 (Nat.zero_lt_of_lt hf)
    rw [glyphs_append, List.append_assoc, scanFrom, piece_spelled char]
    show (scanFrom none fuel _ >>= _) = _
    rw [ih (Nat.lt_of_succ_lt_succ hf)]
    rfl

theorem length_lt_of_textSpelled {cs as : List Char} (h : TextSpelled cs as) :
    cs.length < as.length := by
  induction h with
  | close => exact Nat.zero_lt_one
  | @char c cs as bs char _ ih =>
    have hc : 0 < as.length := by cases char <;> exact Nat.zero_lt_succ _
    rw [List.length_append, List.length_cons]
    omega

/-- a string is taken if and only if it is spelled up to its closing quote -/
theorem scan_eq_ok {p r : Place} {s : String} :
    scan p = .ok (s, r) ↔ ∃ as, TextSpelled s.toList as ∧ p = glyphs as ++ r := by
  unfold scan
  constructor
  · intro h
    obtain ⟨⟨cs, r'⟩, hs, heq⟩ := exists_of_bind h
    cases heq
    obtain ⟨as, ht, rfl⟩ := of_scanFrom hs
    exact ⟨as, by rwa [String.toList_ofList], rfl⟩
  · rintro ⟨as, ht, rfl⟩
    rw [scanFrom_spelled ht r (lt_length_glyphs (length_lt_of_textSpelled ht) r)]
    show Except.ok (String.ofList s.toList, r) = _
    rw [String.ofList_toList]

end Quoted

/-! ## numbers -/

namespace Digit

theorem of_value? {g : Glyph} {d : Nat} (h : value? g = some d) :
    d < 10 ∧ g = .char d.digitChar := by
  cases g with
  | stray b => cases h
  | lost text => cases h
  | char c =>
    obtain ⟨hd, hc⟩ := Text.digitChar_of_digit? h
    exact ⟨hd, by rw [hc]⟩

theorem of_run {p r : Place} {ds : List Nat} (h : run p = (ds, r)) :
    (∀ d ∈ ds, d < 10) ∧ p = glyphs (ds.map Nat.digitChar) ++ r := by
  induction p generalizing ds with
  | nil =>
    cases h
    exact ⟨fun _ h => absurd h List.not_mem_nil, rfl⟩
  | cons g p ih =>
    rw [run] at h
    split at h
    · next d hd =>
      cases h
      obtain ⟨hlt, rfl⟩ := of_value? hd
      obtain ⟨hall, hp⟩ := ih rfl
      refine ⟨List.forall_mem_cons.2 ⟨hlt, hall⟩, ?_⟩
      rw [List.map_cons, glyphs_cons, List.cons_append, ← hp]
    · cases h
      exact ⟨fun _ h => absurd h List.not_mem_nil, rfl⟩

theorem of_absorb {limit n m k : Nat} {ds : List Nat} (h : absorb limit n ds = (m, k, [])) :
    m = ds.foldl (fun m d => m * 10 + d) n := by
  induction ds generalizing n k with
  | nil =>
    cases h
    rfl
  | cons d ds ih =>
    rw [absorb] at h
    split at h
    · cases h
    cases ha : absorb limit (n * 10 + d) ds with
    | mk m' rest =>
    obtain ⟨k', left⟩ := rest
    rw [ha] at h
    cases h
    exact ih ha

end Digit

namespace Number

/-! ### a fraction or an exponent makes a fraction -/

variable {positive : Bool} {leading n : Nat} {p r : Place}

theorem ofScale_ne_natural {exponent : Int} :
    ofScale positive leading exponent p ≠ .ok (.natural n, r) := by
  unfold ofScale
  split <;> exact fun h => by cases h

theorem scanExponent_ne_natural {exponent : Int} :
    scanExponent positive leading exponent p ≠ .ok (.natural n, r) := by
  intro h
  unfold scanExponent at h
  dsimp only at h
  split at h
  · obtain ⟨_, h, -⟩ := exists_of_bind h
    cases h
  -- behind a plus sign, behind a minus sign, and without a sign the same follows
  all_goals
    obtain ⟨⟨up, q⟩, -, h⟩ := exists_of_bind h
    dsimp only at h
    split at h
    · cases h
    · cases h
    split at h
    · cases h
    split at h
    · obtain ⟨_, -, h⟩ := exists_of_bind h
      exact ofScale_ne_natural h
    split at h
    · cases h
    · obtain ⟨_, -, h⟩ := exists_of_bind h
      cases h

theorem scanFraction_ne_natural {exponent : Int} :
    scanFraction positive leading exponent p ≠ .ok (.natural n, r) := by
  intro h
  unfold scanFraction at h
  obtain ⟨_, -, h⟩ := exists_of_bind h
  split at h
  · cases h
  dsimp only at h
  split at h
  · exact scanExponent_ne_natural h
  · exact scanExponent_ne_natural h
  · exact ofScale_ne_natural h

theorem of_scanRest_natural {leftOver : List Nat}
    (h : scanRest positive leading leftOver p = .ok (.natural n, r)) :
    positive = true ∧ leftOver = [] ∧ leading = n ∧ p = r := by
  unfold scanRest at h
  obtain ⟨_, -, h⟩ := exists_of_bind h
  dsimp only at h
  split at h
  · exact absurd h scanFraction_ne_natural
  · exact absurd h scanExponent_ne_natural
  · exact absurd h scanExponent_ne_natural
  split at h
  · next hl =>
    injection h with h
    injection h with hn hr
    unfold ofLeading at hn
    split at hn
    · next hp =>
      cases hn
      exact ⟨hp, List.isEmpty_iff.1 hl, rfl, hr⟩
    · split at hn <;> cases hn
  · exact absurd h ofScale_ne_natural

/-- a number comes out as a natural one if its numeral is all that is spelled -/
theorem of_scan_natural (h : scan positive p = .ok (.natural n, r)) :
    positive = true ∧ p = glyphs (toString n).toList ++ r := by
  unfold scan at h
  split at h
  · cases h
  · cases h
  next g gs _ =>
  rw [Text.toList_toString]
  split at h
  · cases h
  · next hg =>
    obtain ⟨-, rfl⟩ := Digit.of_value? hg
    split at h
    · cases h
    · obtain ⟨hp, -, rfl, rfl⟩ := of_scanRest_natural h
      exact ⟨hp, by rw [Text.decimals_of_lt (by decide)]; rfl⟩
  · next d hz hg =>
    obtain ⟨hd, rfl⟩ := Digit.of_value? hg
    cases hr : Digit.run gs with
    | mk ds r' =>
    rw [hr] at h
    dsimp only at h
    cases ha : Digit.absorb wordLimit d ds with
    | mk leading rest =>
    obtain ⟨k, leftOver⟩ := rest
    rw [ha] at h
    obtain ⟨hp, rfl, rfl, rfl⟩ := of_scanRest_natural h
    obtain ⟨hds, rfl⟩ := Digit.of_run hr
    refine ⟨hp, ?_⟩
    rw [Digit.of_absorb ha, Text.decimals_foldl (Nat.pos_of_ne_zero hz) hds,
      Text.decimals_of_lt hd]
    rfl

end Number

end MachineSpec.Json
