import MachineSpec.Markup.Spelling
import MachineSpec.Proofs.Markup.Escaping
import MachineSpec.Proofs.Text.Coding

/-!
# Spelled texts and tags

Every spelling of a text leads back to the text, and every spelling of a tag to its name and its
attributes.  None of the characters that end a tag or a value stands in a spelling where it could
end it.

* `notMem_of_isNameChar`          what no name holds
* `TextSpelled.unescape_eq`       a spelled text leads back to the text
* `AttributesSpelled.inside?_eq`  a bracket in a value ends no tag
* `attributesFrom_spelled`        the attributes of a spelled tag
* `Element.ofTag_spelled`         its element
-/

namespace MachineSpec.Markup

/-! ## names -/

/-- none of the characters that markup is made of is part of a name -/
theorem notMem_of_isNameChar {c : Char} (h : isNameChar c = true) :
    c ∉ ['<', '>', '"', '\'', '/', '!', '?', '=', '&', ' ', '\t', '\r', '\n'] := by
  intro hc
  simp only [List.mem_cons, List.not_mem_nil, or_false] at hc
  rcases hc with rfl | rfl | rfl | rfl | rfl | rfl | rfl | rfl | rfl | rfl | rfl | rfl | rfl <;>
    exact absurd h (by decide)

theorem ne_of_isNameChar {c x : Char} (h : isNameChar c = true)
    (hx : x ∈ ['<', '>', '"', '\'', '/', '!', '?', '=', '&', ' ', '\t', '\r', '\n']) : c ≠ x :=
  fun he => notMem_of_isNameChar h (he ▸ hx)

theorem isSpace_of_isNameChar {c : Char} (h : isNameChar c = true) : isSpace c = false := by
  have hne : c ≠ ' ' ∧ c ≠ '\t' ∧ c ≠ '\r' ∧ c ≠ '\n' :=
    ⟨ne_of_isNameChar h (by decide), ne_of_isNameChar h (by decide),
      ne_of_isNameChar h (by decide), ne_of_isNameChar h (by decide)⟩
  simp only [isSpace, hne, decide_false, Bool.or_false]

theorem endsKey_of_isNameChar {c : Char} (h : isNameChar c = true) :
    Attribute.endsKey c = false := by
  simp only [Attribute.endsKey, isSpace_of_isNameChar h, ne_of_isNameChar h (by decide : '=' ∈ _),
    decide_false, Bool.or_false]

theorem IsXmlName.isNameChar {s : String} (h : IsXmlName s) :
    ∀ c ∈ s.toList, isNameChar c = true := List.all_eq_true.1 h.2.2

theorem IsXmlName.exists_cons {s : String} (h : IsXmlName s) : ∃ c r, s.toList = c :: r := by
  cases hs : s.toList with
  | nil => exact absurd (String.toList_inj.1 hs) h.1
  | cons c r => exact ⟨c, r, rfl⟩

/-! ## blanks -/

theorem isSpace_of_blanks {ws : List Char} (h : Blanks ws) : ∀ c ∈ ws, isSpace c = true := by
  intro c hc
  have hc := h c hc
  simp only [List.mem_cons, List.not_mem_nil, or_false] at hc
  rcases hc with rfl | rfl | rfl | rfl <;> rfl

/-! ## texts -/

/-- a digit is none of the characters that a reference or a text in markup ends at -/
theorem notMem_of_digit? {base d : Nat} {c : Char} (h : Text.digit? base c = some d) :
    c ∉ ['<', '>', '"', '\'', '&', ';', '+', '-'] := by
  intro hc
  simp only [List.mem_cons, List.not_mem_nil, or_false] at hc
  rcases hc with rfl | rfl | rfl | rfl | rfl | rfl | rfl | rfl <;> cases h

theorem digits_of_digitsFrom {base n m : Nat} {ds : List Char}
    (h : Text.digitsFrom base n ds = some m) : ∀ c ∈ ds, ∃ d, Text.digit? base c = some d := by
  induction ds generalizing n with
  | nil => exact fun _ hc => absurd hc List.not_mem_nil
  | cons c ds ih =>
    obtain ⟨d, hd, hrest⟩ := Option.bind_eq_some_iff.1 h
    rintro x hx
    rcases List.mem_cons.1 hx with rfl | hx
    · exact ⟨d, hd⟩
    · exact ih hrest x hx

theorem le_of_digitsFrom {base n m : Nat} {ds : List Char} (hb : 0 < base)
    (h : Text.digitsFrom base n ds = some m) : n ≤ m := by
  induction ds generalizing n with
  | nil => exact Nat.le_of_eq (Option.some.inj h)
  | cons c ds ih =>
    obtain ⟨d, -, hrest⟩ := Option.bind_eq_some_iff.1 h
    have := ih hrest
    have := Nat.le_mul_of_pos_right n hb
    omega

theorem numberFrom_of_digitsFrom {base n m : Nat} {ds : List Char} (hb : 0 < base)
    (hm : m < UInt32.size) (h : Text.digitsFrom base n ds = some m) :
    numberFrom base n ds = .ok m := by
  induction ds generalizing n with
  | nil => exact congrArg Except.ok (Option.some.inj h)
  | cons c ds ih =>
    obtain ⟨d, hd, hrest⟩ := Option.bind_eq_some_iff.1 h
    have hle := le_of_digitsFrom hb hrest
    rw [numberFrom, hd]
    show (if n * base + d < UInt32.size then _ else _) = _
    rw [if_pos (by omega), ih hrest]

theorem number_of_digitsFrom {base m : Nat} {ds : List Char} (hb : 0 < base) (hm : m < UInt32.size)
    (h0 : m ≠ 0) (h : Text.digitsFrom base 0 ds = some m) : number base ds = .ok m := by
  unfold number
  split
  · exact absurd (Option.some.inj h).symm h0
  · obtain ⟨d, hd⟩ := digits_of_digitsFrom h '+' List.mem_cons_self
    exact absurd (by decide) (notMem_of_digit? hd)
  · obtain ⟨d, hd⟩ := digits_of_digitsFrom h '-' List.mem_cons_self
    exact absurd (by decide) (notMem_of_digit? hd)
  · exact numberFrom_of_digitsFrom hb hm h

section numbered
variable {c : Char} {ds : List Char}

theorem toNat_lt_size (c : Char) : c.toNat < UInt32.size := c.val.toNat_lt

theorem toNat_ne_zero (h : c ≠ '\x00') : c.toNat ≠ 0 := fun h0 => h (Char.toNat_inj.1 h0)

theorem numbered_of_number {n : Except NumberFault Nat} (h0 : c ≠ '\x00') (hn : n = .ok c.toNat) :
    (do
      let n ← n
      if n = 0 then throw NumberFault.zero
      if h : n.isValidChar then return Char.ofNatAux n h
      throw (.noCharacter n)) = Except.ok c := by
  rw [hn]
  show (if c.toNat = 0 then _ else _) = _
  rw [if_neg (toNat_ne_zero h0)]
  show (if h : c.toNat.isValidChar then _ else _) = _
  rw [dif_pos (Utf8.isValidChar_toNat c), Utf8.ofNatAux_toNat]
  rfl

theorem numbered_decimal (h0 : c ≠ '\x00') (h : Text.digitsFrom 10 0 ds = some c.toNat) :
    numbered ds = .ok c := by
  unfold numbered
  dsimp only
  split
  · obtain ⟨d, hd⟩ := digits_of_digitsFrom h 'x' List.mem_cons_self
    cases hd
  · exact numbered_of_number h0
      (number_of_digitsFrom (by decide) (toNat_lt_size c) (toNat_ne_zero h0) h)

theorem numbered_hexadecimal (h0 : c ≠ '\x00') (h : Text.digitsFrom 16 0 ds = some c.toNat) :
    numbered ('x' :: ds) = .ok c :=
  numbered_of_number h0
    (number_of_digitsFrom (by decide) (toNat_lt_size c) (toNat_ne_zero h0) h)

theorem named_numbered (h : numbered ds = .ok c) (start : Nat) :
    named start ('#' :: ds) = .ok c := by
  unfold named
  simp only [h]

end numbered

theorem stops_of_digitsFrom {base m : Nat} {ds : List Char}
    (h : Text.digitsFrom base 0 ds = some m) : ∀ x ∈ ds, stops x = false := by
  intro x hx
  obtain ⟨d, hd⟩ := digits_of_digitsFrom h x hx
  have hn := notMem_of_digit? hd
  simp only [List.mem_cons, List.not_mem_nil, or_false, not_or] at hn
  simp only [stops, hn, decide_false, Bool.or_false]

/-- a spelled character is one character of the text -/
theorem unescapeFrom_charSpelled {barred as : List Char} {c : Char} (hb : '&' ∈ barred)
    (h : CharSpelled barred c as) (start : Nat) (r : List Char) :
    ∃ start', unescapeFrom start (as ++ r) = (do
      let cs ← unescapeFrom start' r
      return c :: cs) := by
  cases h with
  | plain bare =>
    exact ⟨_, unescapeFrom_plain (fun he => bare (by rw [he]; exact hb)) start r⟩
  | @entity name known =>
    rw [List.cons_append, List.append_assoc, List.singleton_append,
      unescapeFrom_name (fun x hx => (name_letters known x hx).1), named_of_mem known]
    exact ⟨_, rfl⟩
  | @decimal ds some digits =>
    have hs : ∀ x ∈ '#' :: ds, stops x = false :=
      List.forall_mem_cons.2 ⟨rfl, stops_of_digitsFrom digits⟩
    have he : '&' :: '#' :: (ds ++ [';']) ++ r = '&' :: (('#' :: ds) ++ ';' :: r) := by simp
    rw [he, unescapeFrom_name hs, named_numbered (numbered_decimal some digits)]
    exact ⟨_, rfl⟩
  | @hexadecimal ds some digits =>
    have hs : ∀ x ∈ '#' :: 'x' :: ds, stops x = false :=
      List.forall_mem_cons.2 ⟨rfl, List.forall_mem_cons.2 ⟨rfl, stops_of_digitsFrom digits⟩⟩
    have he : '&' :: '#' :: 'x' :: (ds ++ [';']) ++ r =
        '&' :: (('#' :: 'x' :: ds) ++ ';' :: r) := by simp
    rw [he, unescapeFrom_name hs, named_numbered (numbered_hexadecimal some digits)]
    exact ⟨_, rfl⟩

/-- what must not stand as it is does not stand in a reference either -/
theorem notMem_of_charSpelled {barred as : List Char} {c x : Char} (hb : x ∈ barred)
    (hx : x ∈ ['<', '"', '\'']) (h : CharSpelled barred c as) : x ∉ as := by
  have hfacts : (∃ e ∈ entities, e.2 = x) ∧ x ∉ ['&', '#', 'x', ';'] ∧
      x ∈ ['<', '>', '"', '\'', '&', ';', '+', '-'] := by
    simp only [List.mem_cons, List.not_mem_nil, or_false] at hx
    rcases hx with rfl | rfl | rfl <;> decide
  obtain ⟨⟨e, he, hex⟩, hp, hdigit⟩ := hfacts
  simp only [List.mem_cons, List.not_mem_nil, or_false, not_or] at hp
  have hds : ∀ {base m : Nat} {ds : List Char},
      Text.digitsFrom base 0 ds = some m → x ∉ ds := fun h hm => by
    obtain ⟨d, hd⟩ := digits_of_digitsFrom h x hm
    exact notMem_of_digit? hd hdigit
  cases h with
  | plain bare =>
    rw [List.mem_singleton]
    exact fun he => bare (he ▸ hb)
  | entity known =>
    simp only [List.mem_cons, List.mem_append, List.not_mem_nil, or_false, not_or]
    exact ⟨hp.1, fun hm => (name_letters known x hm).2 e he hex, hp.2.2.2⟩
  | decimal some digits =>
    simp only [List.mem_cons, List.mem_append, List.not_mem_nil, or_false, not_or]
    exact ⟨hp.1, hp.2.1, hds digits, hp.2.2.2⟩
  | hexadecimal some digits =>
    simp only [List.mem_cons, List.mem_append, List.not_mem_nil, or_false, not_or]
    exact ⟨hp.1, hp.2.1, hp.2.2.1, hds digits, hp.2.2.2⟩

namespace TextSpelled
variable {barred u v as bs : List Char}

theorem append (hu : TextSpelled barred u as) (hv : TextSpelled barred v bs) :
    TextSpelled barred (u ++ v) (as ++ bs) := by
  induction hu with
  | nil => exact hv
  | @cons c cs xs ys char rest ih =>
    rw [List.cons_append, List.append_assoc]
    exact .cons char ih

/-- a text in which nothing is barred is one of its own spellings -/
theorem plain (h : ∀ c ∈ u, c ∉ barred) : TextSpelled barred u u := by
  induction u with
  | nil => exact .nil
  | cons c u ih =>
    obtain ⟨hc, hu⟩ := List.forall_mem_cons.1 h
    exact .cons (.plain hc) (ih hu)

theorem notMem {x : Char} (hb : x ∈ barred) (hx : x ∈ ['<', '"', '\''])
    (h : TextSpelled barred u as) : x ∉ as := by
  induction h with
  | nil => exact List.not_mem_nil
  | cons char rest ih =>
    rw [List.mem_append]
    exact fun hm => hm.elim (notMem_of_charSpelled hb hx char) ih

theorem unescapeFrom_eq (hb : '&' ∈ barred) (h : TextSpelled barred u as) (start : Nat) :
    unescapeFrom start as = .ok u := by
  induction h generalizing start with
  | nil => rw [unescapeFrom]
  | @cons c cs xs ys char rest ih =>
    obtain ⟨start', hc⟩ := unescapeFrom_charSpelled hb char start ys
    rw [hc, ih]
    rfl

/-- a spelled text leads back to the text -/
theorem unescape_eq (hb : '&' ∈ barred) (h : TextSpelled barred u as) :
    unescape as = .ok (String.ofList u) := by
  unfold unescape
  rw [unescapeFrom_eq hb h]
  rfl

end TextSpelled

/-! ## quotes -/

/-- a quote that a value stands in -/
theorem of_mem_quotes {q : Char} (h : q ∈ ['"', '\'']) :
    (q = '"' ∨ q = '\'') ∧ q ∈ ['<', '"', '\''] ∧ q ≠ '>' ∧ q ≠ '/' ∧ isSpace q = false := by
  simp only [List.mem_cons, List.not_mem_nil, or_false] at h
  rcases h with rfl | rfl <;> decide

theorem TextSpelled.quote_notMem {q : Char} {u v : List Char}
    (h : TextSpelled ['<', '&', q] u v) (hq : q ∈ ['"', '\'']) : q ∉ v :=
  h.notMem (by simp) (of_mem_quotes hq).2.1

/-! ## tags -/

namespace Token

theorem inside?_run {w : List Char} (h : ∀ c ∈ w, c ≠ '>' ∧ c ≠ '"' ∧ c ≠ '\'') (r : List Char) :
    inside? none (w ++ r) = (inside? none r).map fun (a, b) => (w ++ a, b) := by
  induction w with
  | nil =>
    show inside? none r = _
    cases inside? none r <;> rfl
  | cons c w ih =>
    obtain ⟨h1, h2, h3⟩ := h c List.mem_cons_self
    have hq : ¬(c = '"' ∨ c = '\'') := by
      rintro (h | h)
      · exact h2 h
      · exact h3 h
    rw [List.cons_append, inside?, if_neg h1, if_neg hq,
      ih fun x hx => h x (List.mem_cons_of_mem _ hx), Option.map_map]
    rfl

/-- the rest of a value, up to its closing quote -/
theorem inside?_value {q : Char} {v : List Char} (h : q ∉ v) (r : List Char) :
    inside? (some q) (v ++ q :: r) = (inside? none r).map fun (a, b) => (v ++ q :: a, b) := by
  induction v with
  | nil =>
    show (inside? (if q = q then none else some q) r).map _ = _
    rw [if_pos rfl]
    rfl
  | cons c v ih =>
    rw [List.mem_cons, not_or] at h
    show (inside? (if c = q then none else some q) (v ++ q :: r)).map _ = _
    rw [if_neg (Ne.symm h.1), ih h.2, Option.map_map]
    rfl

theorem inside?_quoted {q : Char} (hq : q ∈ ['"', '\'']) {v : List Char} (h : q ∉ v)
    (r : List Char) :
    inside? none (q :: (v ++ q :: r)) =
      (inside? none r).map fun (a, b) => (q :: (v ++ q :: a), b) := by
  obtain ⟨hopen, -, hne, -⟩ := of_mem_quotes hq
  rw [inside?, if_neg hne, if_pos hopen, inside?_value h, Option.map_map]
  rfl

theorem inside?_name {s : String} (h : IsXmlName s) (r : List Char) :
    inside? none (s.toList ++ r) = (inside? none r).map fun (a, b) => (s.toList ++ a, b) :=
  inside?_run (fun c hc =>
    have hname := h.isNameChar c hc
    ⟨ne_of_isNameChar hname (by decide), ne_of_isNameChar hname (by decide),
      ne_of_isNameChar hname (by decide)⟩) r

theorem inside?_blanks {ws : List Char} (h : Blanks ws) (r : List Char) :
    inside? none (ws ++ r) = (inside? none r).map fun (a, b) => (ws ++ a, b) := by
  refine inside?_run (fun c hc => ?_) r
  have hc := h c hc
  simp only [List.mem_cons, List.not_mem_nil, or_false] at hc
  rcases hc with rfl | rfl | rfl | rfl <;> decide

end Token

section values
variable {ws v : List Char} {q : Char}

theorem equals_blanks (h : Blanks ws) (total : Nat) (r : List Char) :
    Attribute.equals total (ws ++ '=' :: r) = .ok r := by
  unfold Attribute.equals
  rw [Text.dropWhile_run (isSpace_of_blanks h) (Text.stops_cons rfl)]
  rfl

theorem value_quoted (h : Blanks ws) (hq : q ∈ ['"', '\'']) (hv : q ∉ v) (total : Nat)
    (r : List Char) : Attribute.value total (ws ++ q :: (v ++ q :: r)) = .ok (v, r) := by
  obtain ⟨hopen, -, -, -, hspace⟩ := of_mem_quotes hq
  have hp : ∀ x ∈ v, (fun c => decide (c ≠ q)) x = true := fun x hx =>
    decide_eq_true fun he => hv (he ▸ hx)
  have hs : (fun c => decide (c ≠ q)) q = false := decide_eq_false fun h => h rfl
  unfold Attribute.value
  rw [Text.dropWhile_run (isSpace_of_blanks h) (Text.stops_cons hspace)]
  show (if _ then _ else _) = _
  rw [if_pos hopen, Text.dropWhile_stop hp hs, Text.takeWhile_stop hp hs]

end values

namespace AttributesSpelled
variable {as : List (String × String)} {cs : List Char}

/-- behind the name of a tag comes a blank, or nothing -/
theorem stops (h : AttributesSpelled as cs) : Text.Stops (fun c => !isSpace c) cs := by
  have hall : ∀ {ws : List Char}, Blanks ws → ∀ c ∈ ws, (!isSpace c) = false := fun hw c hc => by
    rw [isSpace_of_blanks hw c hc]
    rfl
  intro c hc
  cases h with
  | nil blanks => exact hall blanks c (List.mem_of_mem_head? hc)
  | @cons key value as q ws before behind v rest apart blanks =>
    cases ws with
    | nil => exact absurd rfl apart
    | cons w ws =>
      cases hc
      exact hall blanks c List.mem_cons_self

/-- attributes end in a quote, or in a blank -/
theorem getLast?_ne (h : AttributesSpelled as cs) : cs.getLast? ≠ some '/' := by
  induction h with
  | nil blanks => exact fun hl => absurd (blanks _ (List.mem_of_getLast? hl)) (by decide)
  | @cons key value as q ws before behind v rest apart blanks _ _ quotes _ others ih =>
    have he : ws ++ (key.toList ++ (before ++ '=' :: (behind ++ q :: (v ++ q :: rest)))) =
        (ws ++ key.toList ++ before ++ '=' :: behind ++ q :: v) ++ ([q] ++ rest) := by simp
    rw [he, List.getLast?_append, List.getLast?_append]
    cases hl : rest.getLast? with
    | none => exact fun h => (of_mem_quotes quotes).2.2.2.1 (Option.some.inj h)
    | some c => exact fun h => ih (hl.trans h)

/-- no bracket between quotes ends the tag -/
theorem inside?_eq (h : AttributesSpelled as cs) (hn : ∀ a ∈ as, IsXmlName a.1) (r : List Char) :
    Token.inside? none (cs ++ r) = (Token.inside? none r).map fun (a, b) => (cs ++ a, b) := by
  induction h with
  | nil blanks => exact Token.inside?_blanks blanks r
  | @cons key value as q ws before behind v rest _ blanks blanks_before blanks_behind quotes
      spelled others ih =>
    have hv := spelled.quote_notMem quotes
    have heq : ∀ r, Token.inside? none ('=' :: r) =
        (Token.inside? none r).map fun (a, b) => ('=' :: a, b) := fun r =>
      @Token.inside?_run ['='] (List.forall_mem_singleton.2 (by decide)) r
    obtain ⟨hkey, hrest⟩ := List.forall_mem_cons.1 hn
    have hassoc : ws ++ (key.toList ++ (before ++ '=' :: (behind ++ q :: (v ++ q :: rest)))) ++ r =
        ws ++ (key.toList ++ (before ++ '=' :: (behind ++ q :: (v ++ q :: (rest ++ r))))) := by
      simp
    rw [hassoc, Token.inside?_blanks blanks, Token.inside?_name hkey,
      Token.inside?_blanks blanks_before, heq, Token.inside?_blanks blanks_behind,
      Token.inside?_quoted quotes hv, ih hrest]
    simp only [Option.map_map]
    congr 1
    funext ⟨a, b⟩
    simp

end AttributesSpelled

theorem next_spelled (total : Nat) {key : String} (hkey : IsXmlName key)
    {seen : List (List Char × Nat)} (hseen : seen.lookup key.toList = none)
    {ws before behind v : List Char} {q : Char} (blanks : Blanks ws)
    (blanks_before : Blanks before) (blanks_behind : Blanks behind) (hq : q ∈ ['"', '\''])
    (hv : q ∉ v) (r : List Char) :
    ∃ position, Attribute.next total seen
        (ws ++ (key.toList ++ (before ++ '=' :: (behind ++ q :: (v ++ q :: r))))) =
      .ok (some ⟨key.toList, position, v, r⟩) := by
  obtain ⟨c, w, hs⟩ := hkey.exists_cons
  have hname := hkey.isNameChar
  rw [hs] at hname hseen ⊢
  obtain ⟨hc, hw⟩ := List.forall_mem_cons.1 hname
  have hstart : Text.Stops isSpace
      (c :: (w ++ (before ++ '=' :: (behind ++ q :: (v ++ q :: r))))) :=
    Text.stops_cons (isSpace_of_isNameChar hc)
  have hp : ∀ x ∈ w, (fun c => !Attribute.endsKey c) x = true := fun x hx => by
    show (!Attribute.endsKey x) = true
    rw [endsKey_of_isNameChar (hw x hx)]
    rfl
  -- a key ends at the blanks behind it, or else at the equals sign
  have hstop : Text.Stops (fun c => !Attribute.endsKey c)
      (before ++ '=' :: (behind ++ q :: (v ++ q :: r))) := by
    cases before with
    | nil => exact Text.stops_cons rfl
    | cons b before =>
      refine Text.stops_cons ?_
      show (!Attribute.endsKey b) = false
      rw [Attribute.endsKey, isSpace_of_blanks blanks_before b List.mem_cons_self, Bool.or_true]
      rfl
  unfold Attribute.next
  rw [List.cons_append, Text.dropWhile_run (isSpace_of_blanks blanks) hstart]
  simp only [Text.takeWhile_run hp hstop, Text.dropWhile_run hp hstop,
    equals_blanks blanks_before, hseen, value_quoted blanks_behind hq hv, bind, Except.bind, pure,
    Except.pure]
  exact ⟨_, rfl⟩

/-- the attributes of a tag are those that it spells -/
theorem attributesFrom_spelled {as : List (String × String)} {cs : List Char}
    (h : AttributesSpelled as cs) (hn : ∀ a ∈ as, IsXmlName a.1) (hd : (as.map (·.1)).Nodup)
    (total : Nat) {seen : List (List Char × Nat)}
    (hseen : ∀ a ∈ as, seen.lookup a.1.toList = none) : attributesFrom total seen cs = .ok as := by
  induction h generalizing seen with
  | @nil ws blanks =>
    have hblank := Text.dropWhile_run (isSpace_of_blanks blanks) Text.stops_nil
    have hnext : Attribute.next total seen ws = .ok none := by
      rw [List.append_nil] at hblank
      unfold Attribute.next
      rw [hblank]
    rw [attributesFrom]
    split
    · next heq => rw [hnext] at heq; cases heq
    · rfl
    · next heq => rw [hnext] at heq; cases heq
  | @cons key value as q ws before behind v rest _ blanks blanks_before blanks_behind quotes
      spelled others ih =>
    have hv := spelled.quote_notMem quotes
    obtain ⟨hkey, hn⟩ := List.forall_mem_cons.1 hn
    obtain ⟨hkeys, hd⟩ := List.nodup_cons.1 hd
    obtain ⟨hfirst, hseen⟩ := List.forall_mem_cons.1 hseen
    obtain ⟨position, hnext⟩ := next_spelled total hkey hfirst blanks blanks_before blanks_behind
      quotes hv rest
    have hs : ∀ b ∈ as, ((key.toList, position) :: seen).lookup b.1.toList = none := by
      intro b hb
      have hne : (b.1.toList == key.toList) = false := by
        rw [beq_eq_false_iff_ne]
        intro he
        exact hkeys (List.mem_map.2 ⟨b, hb, String.toList_inj.1 he⟩)
      rw [List.lookup_cons, hne]
      exact hseen b hb
    rw [attributesFrom]
    split
    · next heq => rw [hnext] at heq; cases heq
    · next heq => rw [hnext] at heq; cases heq
    · next heq =>
      rw [hnext] at heq
      cases heq
      rw [spelled.unescape_eq (by simp), ih hn hd hs]
      simp only [String.ofList_toList]
      rfl

/-- the element of a spelled tag has its name and its attributes -/
theorem Element.ofTag_spelled {name : String} {as : List (String × String)} {cs : List Char}
    (hname : IsXmlName name) (hn : ∀ a ∈ as, IsXmlName a.1) (hd : (as.map (·.1)).Nodup)
    (h : AttributesSpelled as cs) :
    Element.ofTag (name.toList ++ cs) = .ok (.mk name as "" []) := by
  have hp : ∀ x ∈ name.toList, (fun c => !isSpace c) x = true := fun x hx => by
    show (!isSpace x) = true
    rw [isSpace_of_isNameChar (hname.isNameChar x hx)]
    rfl
  have hleft : tagName (name.toList ++ cs) = name.toList := Text.takeWhile_run hp h.stops
  have hright : tagRest (name.toList ++ cs) = cs := Text.dropWhile_run hp h.stops
  unfold Element.ofTag Markup.attributes
  rw [hleft, hright, attributesFrom_spelled h hn hd _ fun _ _ => rfl]
  simp only [String.ofList_toList]
  rfl

end MachineSpec.Markup
