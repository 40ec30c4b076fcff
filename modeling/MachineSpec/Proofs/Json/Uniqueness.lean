import MachineSpec.Proofs.Json.Collections

/-!
# One value for each JSON text

A spelling is a spelling of one value only, and where one value ends does not depend on what
follows it.  The first character tells the sort of a value; from there on the functions that read a
text tell its parts, for they cannot come to two results at one place.

* `Numeral.unique`        a number, where a number ends for sure
* `ValueSpelled.unique`   a value, by induction on its spelling
* `Value.Encoded.unique`  the value of a byte text
-/

namespace MachineSpec.Json

open Digit (Ends enders ends_cons ends_nil)
open Text (Stops takeWhile_run dropWhile_run stops_cons stops_nil)

/-! ## numbers -/

def isDecimal : Glyph → Bool
  | .char c => c.isDigit
  | _ => false

/-- digits end where something else stands -/
theorem digits_unique {ds ds' : List Char} (h : ∀ c ∈ ds, c.isDigit = true)
    (h' : ∀ c ∈ ds', c.isDigit = true) {r r' : Place} (hr : Stops isDecimal r)
    (hr' : Stops isDecimal r') (he : glyphs ds ++ r = glyphs ds' ++ r') : ds = ds' ∧ r = r' := by
  have hall : ∀ {es : List Char}, (∀ c ∈ es, c.isDigit = true) →
      ∀ g ∈ glyphs es, isDecimal g = true := by
    intro es hes g hg
    obtain ⟨c, hc, rfl⟩ := List.mem_map.1 hg
    exact hes c hc
  constructor
  · have ht := congrArg (List.takeWhile isDecimal) he
    rw [takeWhile_run (hall h) hr, takeWhile_run (hall h') hr'] at ht
    exact glyphs_injective ht
  · have hd := congrArg (List.dropWhile isDecimal) he
    rwa [dropWhile_run (hall h) hr, dropWhile_run (hall h') hr'] at hd

theorem Digits.ext {ds ds' : Digits} (h : ds.chars = ds'.chars) : ds = ds' := by
  cases ds
  cases ds'
  cases h
  rfl

theorem Digits.head_ne (ds : Digits) {c : Char} (hc : c.isDigit = false) {r q : Place} :
    glyphs ds.chars ++ r ≠ .char c :: q := by
  obtain ⟨d, cs, hd⟩ := List.exists_cons_of_ne_nil ds.filled
  have hdigit : d.isDigit = true := ds.decimal d (hd ▸ List.mem_cons_self)
  rw [hd]
  intro h
  cases h
  rw [hc] at hdigit
  cases hdigit

theorem toString_injective {m n : Nat} (h : (toString m).toList = (toString n).toList) : m = n := by
  have hm := Text.digitsFrom_decimals m
  rw [← Text.toList_toString, h, Text.toList_toString, Text.digitsFrom_decimals] at hm
  exact (Option.some.inj hm).symm

namespace Numeral

/-- the first character behind a number is none of it -/
theorem stops_of_ends {r : Place} (h : Ends r) {p : Glyph → Bool}
    (hp : (enders.any fun c => p (.char c)) = false) : Stops p r := by
  intro g hg
  obtain ⟨c, hc, rfl⟩ := h g hg
  exact Bool.eq_false_iff.2 (List.any_eq_false.1 hp c hc)

theorem stops_exponent {r : Place} (h : Ends r) (e? : Option Exponent) {p : Glyph → Bool}
    (hp : (('e' :: 'E' :: enders).any fun c => p (.char c)) = false) :
    Stops p (glyphs (exponent e?) ++ r) := by
  simp only [List.any_cons, Bool.or_eq_false_iff] at hp
  obtain ⟨hlower, hupper, hends⟩ := hp
  cases e? with
  | none => exact stops_of_ends h hends
  | some e =>
    obtain ⟨upper, minus?, ds⟩ := e
    cases upper
    · exact stops_cons hlower
    · exact stops_cons hupper

theorem stops_fraction {r : Place} (h : Ends r) (f? : Option Digits) (e? : Option Exponent) :
    Stops isDecimal (glyphs (fraction f?) ++ (glyphs (exponent e?) ++ r)) := by
  cases f? with
  | none => exact stops_exponent h e? (by decide)
  | some ds => exact stops_cons rfl

section parts
variable {r r' : Place} (hr : Ends r) (hr' : Ends r')
include hr hr'

theorem exponent_unique {e? e?' : Option Exponent}
    (he : glyphs (exponent e?) ++ r = glyphs (exponent e?') ++ r') : e? = e?' ∧ r = r' := by
  have hletter : ∀ (e : Exponent) {r : Place} (q : Place), Ends r →
      r ≠ glyphs (exponent (some e)) ++ q := by
    intro e r q h hq
    have hstops : Stops (fun g => g == .char 'e' || g == .char 'E') r :=
      stops_of_ends h (by decide)
    obtain ⟨upper, minus?, ds⟩ := e
    have hfalse := hstops _ (congrArg List.head? hq)
    cases upper <;> exact absurd hfalse Bool.true_eq_false.mp
  cases e? with
  | none =>
    cases e?' with
    | none => exact ⟨rfl, he⟩
    | some e' => exact absurd he (hletter e' _ hr)
  | some e =>
    cases e?' with
    | none => exact absurd he.symm (hletter e _ hr')
    | some e' =>
      obtain ⟨upper, minus?, ds⟩ := e
      obtain ⟨upper', minus?', ds'⟩ := e'
      obtain ⟨hupper, hsigned⟩ := List.cons.inj he
      have hcase : upper = upper' := by
        have hletters : ('E' : Char) ≠ 'e' := by decide
        cases upper <;> cases upper'
        · rfl
        · exact absurd (Glyph.char.inj hupper).symm hletters
        · exact absurd (Glyph.char.inj hupper) hletters
        · rfl
      have hminus : minus? = minus?' ∧ glyphs ds.chars ++ r = glyphs ds'.chars ++ r' := by
        rcases minus? with _ | _ | _ <;> rcases minus?' with _ | _ | _ <;>
          first
          | exact ⟨rfl, hsigned⟩
          | exact ⟨rfl, (List.cons.inj hsigned).2⟩
          | exact absurd (List.cons.inj hsigned).1 (by decide)
          | exact absurd hsigned (ds.head_ne rfl)
          | exact absurd hsigned.symm (ds'.head_ne rfl)
      obtain ⟨rfl, hdigits⟩ := hminus
      obtain ⟨hds, hrest⟩ := digits_unique ds.decimal ds'.decimal
        (stops_of_ends hr (by decide)) (stops_of_ends hr' (by decide)) hdigits
      rw [hcase, Digits.ext hds]
      exact ⟨rfl, hrest⟩

theorem fraction_unique {f? f?' : Option Digits} {e? e?' : Option Exponent}
    (he : glyphs (fraction f?) ++ (glyphs (exponent e?) ++ r) =
      glyphs (fraction f?') ++ (glyphs (exponent e?') ++ r')) :
    f? = f?' ∧ glyphs (exponent e?) ++ r = glyphs (exponent e?') ++ r' := by
  have hdot : ∀ (e? : Option Exponent) {r : Place}, Ends r → ∀ q,
      glyphs (exponent e?) ++ r ≠ .char '.' :: q := by
    intro e? r hr q hq
    have hstops : Stops (· == .char '.') (glyphs (exponent e?) ++ r) :=
      stops_exponent hr e? (by decide)
    exact Bool.false_ne_true ((hstops _ (by rw [hq]; rfl)).symm.trans (beq_self_eq_true _))
  cases f? with
  | none =>
    cases f?' with
    | none => exact ⟨rfl, he⟩
    | some ds => exact absurd he (hdot e? hr _)
  | some ds =>
    cases f?' with
    | none => exact absurd he.symm (hdot e?' hr' _)
    | some ds' =>
      obtain ⟨hds, hrest⟩ := digits_unique ds.decimal ds'.decimal
        (stops_exponent hr e? (by decide)) (stops_exponent hr' e?' (by decide))
        (List.cons.inj he).2
      exact ⟨congrArg some (Digits.ext hds), hrest⟩

theorem unique {n n' : Numeral} (he : glyphs n.spelling ++ r = glyphs n'.spelling ++ r') :
    n = n' ∧ r = r' := by
  obtain ⟨minus, whole, f?, e?⟩ := n
  obtain ⟨minus', whole', f?', e?'⟩ := n'
  simp only [spelling, glyphs_append, List.append_assoc] at he
  have hdigit : ∀ (n : Nat) (q q' : Place), glyphs (toString n).toList ++ q ≠ .char '-' :: q' := by
    intro n q q' h
    obtain ⟨c, cs, hs, hc⟩ := Text.exists_toString n
    rw [hs] at h
    cases h
    cases hc
  have hsign : minus = minus' ∧ glyphs (toString whole).toList ++ (glyphs (fraction f?) ++
      (glyphs (exponent e?) ++ r)) = glyphs (toString whole').toList ++ (glyphs (fraction f?') ++
      (glyphs (exponent e?') ++ r')) := by
    cases minus <;> cases minus'
    · exact ⟨rfl, he⟩
    · exact absurd he (hdigit _ _ _)
    · exact absurd he.symm (hdigit _ _ _)
    · exact ⟨rfl, (List.cons.inj he).2⟩
  obtain ⟨rfl, hunsigned⟩ := hsign
  obtain ⟨hwhole, hpart⟩ := digits_unique (fun _ => Text.isDigit_of_mem_toString)
    (fun _ => Text.isDigit_of_mem_toString) (stops_fraction hr f? e?) (stops_fraction hr' f?' e?')
    hunsigned
  obtain rfl := toString_injective hwhole
  obtain ⟨rfl, hscale⟩ := fraction_unique hr hr' hpart
  obtain ⟨rfl, hrest⟩ := exponent_unique hr hr' hscale
  exact ⟨rfl, hrest⟩

end parts

end Numeral

/-! ## values -/

/-- the sort of a value that starts with this character -/
def sortOf (c : Char) : Nat :=
  if c = 'n' then Value.null.ctorIdx
  else if c = 't' ∨ c = 'f' then (Value.flag true).ctorIdx
  else if c = '"' then (Value.text "").ctorIdx
  else if c = '[' then (Value.list []).ctorIdx
  else if c = '\x7b' then (Value.object []).ctorIdx
  else (Value.number { whole := 0 }).ctorIdx

theorem sortOf_spelling (n : Numeral) :
    ∃ c ds, n.spelling = c :: ds ∧ sortOf c = (Value.number n).ctorIdx := by
  obtain ⟨c, ds, hc, hn⟩ := exists_spelling n
  refine ⟨c, ds, hc, ?_⟩
  have hne : ∀ d ∈ ['n', 't', 'f', '"', '[', '\x7b'], c ≠ d := by
    rintro d hd rfl
    have hnone : (['n', 't', 'f', '"', '[', '\x7b'].any fun d => d = '-' || d.isDigit) = false := by
      decide
    exact List.any_eq_false.1 hnone c hd (by simpa using hn)
  simp only [List.forall_mem_cons] at hne
  simp only [sortOf, hne, or_self, ↓reduceIte]
  rfl

/-- the first character of a value tells its sort -/
theorem exists_sortOf {v : Value} {cs : List Char} (h : ValueSpelled v cs) :
    ∃ c ds, cs = c :: ds ∧ sortOf c = v.ctorIdx := by
  cases h with
  | flag b => cases b <;> exact ⟨_, _, rfl, rfl⟩
  | number n => exact sortOf_spelling n
  | _ => exact ⟨_, _, rfl, rfl⟩

theorem ctorIdx_eq {v v' : Value} {cs cs' : List Char} (h : ValueSpelled v cs)
    (h' : ValueSpelled v' cs') {r r' : Place} (he : glyphs cs ++ r = glyphs cs' ++ r') :
    v.ctorIdx = v'.ctorIdx := by
  obtain ⟨c, ds, rfl, hc⟩ := exists_sortOf h
  obtain ⟨c', ds', rfl, hc'⟩ := exists_sortOf h'
  rw [← hc, ← hc', Glyph.char.inj (List.cons.inj he).1]

theorem text_unique {s s' : String} {cs cs' : List Char} (h : TextSpelled s.toList cs)
    (h' : TextSpelled s'.toList cs') {r r' : Place} (he : glyphs cs ++ r = glyphs cs' ++ r') :
    s = s' ∧ r = r' := by
  have hs : Quoted.scan (glyphs cs ++ r) = .ok (s, r) := Quoted.scan_eq_ok.2 ⟨cs, h, rfl⟩
  rw [he, Quoted.scan_eq_ok.2 ⟨cs', h', rfl⟩] at hs
  cases hs
  exact ⟨rfl, rfl⟩

/-- white space in front of a value ends where the value starts -/
theorem skip_spelled {ws cs : List Char} {v : Value} (hw : Blanks ws) (h : ValueSpelled v cs)
    (r : Place) : skip (glyphs ws ++ (glyphs cs ++ r)) = glyphs cs ++ r := by
  obtain ⟨c, ds, rfl, hc, -⟩ := exists_spelled h
  exact (skip_glyphs hw _).trans (skip_char (mt blank_mem_enders hc) _)

theorem nextItem?_item {first : Bool} {ls cs ds : List Char} {v : Value} (hl : Lead first ls)
    (h : ValueSpelled v cs) (r : Place) :
    Reader.nextItem? first (glyphs (ls ++ (cs ++ ds)) ++ r) =
      .ok (some (glyphs cs ++ (glyphs ds ++ r))) := by
  obtain ⟨c, es, rfl, hc, -⟩ := exists_spelled h
  rw [glyphs_append, glyphs_append, List.append_assoc, List.append_assoc]
  exact Reader.nextItem?_lead hl hc _

theorem nextKey?_member {first : Bool} {ls cs : List Char} (hl : Lead first ls) (r : Place) :
    Reader.nextKey? first (glyphs (ls ++ '"' :: cs) ++ r) = .ok (some (glyphs cs ++ r)) := by
  rw [glyphs_append, List.append_assoc]
  exact Reader.nextKey?_lead hl _

/-- so does white space in front of a fixed character -/
theorem fixed_unique {ws ws' : List Char} {c : Char} (hc : c ∉ [' ', '\n', '\t', '\r'])
    (hw : Blanks ws) (hw' : Blanks ws') {r r' : Place}
    (he : glyphs ws ++ .char c :: r = glyphs ws' ++ .char c :: r') : r = r' := by
  have hskip := congrArg skip he
  rw [(skip_eq_cons hc).2 ⟨ws, hw, rfl⟩, (skip_eq_cons hc).2 ⟨ws', hw', rfl⟩] at hskip
  exact (List.cons.inj hskip).2

theorem glyphs_close (ws : List Char) (c : Char) (r : Place) :
    glyphs (ws ++ [c]) ++ r = glyphs ws ++ .char c :: r := by
  rw [glyphs_append, List.append_assoc]
  rfl

open Reader in
mutual

/-- a value is spelled one way only, and ends at one place only -/
theorem ValueSpelled.unique : ∀ {v v' : Value} {cs cs' : List Char}, ValueSpelled v cs →
    ValueSpelled v' cs' → ∀ {r r' : Place}, Ends r → Ends r' →
      glyphs cs ++ r = glyphs cs' ++ r' → v = v' ∧ r = r'
  | _, _, _, _, .null, h', r, r', hr, hr', he => by
    have hsort := ctorIdx_eq .null h' he
    cases h' with
    | null => exact ⟨rfl, List.append_cancel_left he⟩
    | _ => cases hsort
  | _, _, _, _, .flag b, h', r, r', hr, hr', he => by
    have hsort := ctorIdx_eq (.flag b) h' he
    cases h' with
    | flag b' =>
      cases b <;> cases b' <;>
        first
        | exact ⟨rfl, List.append_cancel_left he⟩
        | exact absurd (Glyph.char.inj (List.cons.inj he).1) (by decide)
    | _ => cases hsort
  | _, _, _, _, .number n, h', r, r', hr, hr', he => by
    have hsort := ctorIdx_eq (.number n) h' he
    cases h' with
    | number n' =>
      obtain ⟨rfl, hrest⟩ := Numeral.unique hr hr' he
      exact ⟨rfl, hrest⟩
    | _ => cases hsort
  | _, _, _, _, .text chars, h', r, r', hr, hr', he => by
    have hsort := ctorIdx_eq (.text chars) h' he
    cases h' with
    | text chars' =>
      obtain ⟨rfl, hrest⟩ := text_unique chars chars' (List.cons.inj he).2
      exact ⟨rfl, hrest⟩
    | _ => cases hsort
  | _, _, _, _, .list items, h', r, r', hr, hr', he => by
    have hsort := ctorIdx_eq (.list items) h' he
    cases h' with
    | list items' =>
      obtain ⟨rfl, hrest⟩ := items.unique items' (List.cons.inj he).2
      exact ⟨rfl, hrest⟩
    | _ => cases hsort
  | _, _, _, _, .object members, h', r, r', hr, hr', he => by
    have hsort := ctorIdx_eq (.object members) h' he
    cases h' with
    | object members' =>
      obtain ⟨rfl, hrest⟩ := members.unique members' (List.cons.inj he).2
      exact ⟨rfl, hrest⟩
    | _ => cases hsort

theorem ItemsSpelled.unique : ∀ {first : Bool} {vs vs' : List Value} {cs cs' : List Char},
    ItemsSpelled first vs cs → ItemsSpelled first vs' cs' → ∀ {r r' : Place},
      glyphs cs ++ r = glyphs cs' ++ r' → vs = vs' ∧ r = r'
  | first, _, _, _, _, .close blanks, h', r, r', he => by
    cases h' with
    | close blanks' =>
      rw [glyphs_close, glyphs_close] at he
      exact ⟨rfl, fixed_unique (by decide) blanks blanks' he⟩
    | item lead' value' rest' =>
      have hnext := congrArg (nextItem? first) he
      rw [glyphs_close, nextItem?_close blanks, nextItem?_item lead' value'] at hnext
      cases hnext
  | first, _, _, _, _, .item lead value rest, h', r, r', he => by
    have hnext := congrArg (nextItem? first) he
    rw [nextItem?_item lead value] at hnext
    cases h' with
    | close blanks' =>
      rw [glyphs_close, nextItem?_close blanks'] at hnext
      cases hnext
    | item lead' value' rest' =>
      rw [nextItem?_item lead' value'] at hnext
      have hplace := Option.some.inj (Except.ok.inj hnext)
      obtain ⟨rfl, htail⟩ :=
        value.unique value' (ends_items rest r) (ends_items rest' r') hplace
      obtain ⟨rfl, hrest⟩ := rest.unique rest' htail
      exact ⟨rfl, hrest⟩

theorem MembersSpelled.unique : ∀ {first : Bool} {ms ms' : List (String × Value)}
    {cs cs' : List Char}, MembersSpelled first ms cs → MembersSpelled first ms' cs' →
      ∀ {r r' : Place}, glyphs cs ++ r = glyphs cs' ++ r' → ms = ms' ∧ r = r'
  | first, _, _, _, _, .close blanks, h', r, r', he => by
    cases h' with
    | close blanks' =>
      rw [glyphs_close, glyphs_close] at he
      exact ⟨rfl, fixed_unique (by decide) blanks blanks' he⟩
    | member lead' =>
      have hnext := congrArg (nextKey? first) he
      rw [glyphs_close, nextKey?_close blanks, nextKey?_member lead'] at hnext
      cases hnext
  | first, _, _, _, _, .member lead key before behind value rest, h', r, r', he => by
    have hnext := congrArg (nextKey? first) he
    rw [nextKey?_member lead] at hnext
    cases h' with
    | close blanks' =>
      rw [glyphs_close, nextKey?_close blanks'] at hnext
      cases hnext
    | member lead' key' before' behind' value' rest' =>
      rw [nextKey?_member lead'] at hnext
      have hplace := Option.some.inj (Except.ok.inj hnext)
      simp only [glyphs_append, glyphs_cons, List.append_assoc, List.cons_append] at hplace
      obtain ⟨rfl, hcolon⟩ := text_unique key key' hplace
      have hskip := congrArg skip (fixed_unique (by decide) before before' hcolon)
      rw [skip_spelled behind value, skip_spelled behind' value'] at hskip
      obtain ⟨rfl, htail⟩ :=
        value.unique value' (ends_members rest r) (ends_members rest' r') hskip
      obtain ⟨rfl, hrest⟩ := rest.unique rest' htail
      exact ⟨rfl, hrest⟩

end

/-- a byte text holds one value at most -/
theorem Value.Encoded.unique {v v' : Value} {bytes : Bytes} (h : v.Encoded bytes)
    (h' : v'.Encoded bytes) : v = v' := by
  obtain ⟨before, cs, behind, hbefore, hv, hbehind, rfl⟩ := h
  obtain ⟨before', cs', behind', hbefore', hv', hbehind', he⟩ := h'
  have hchars := congrArg Utf8.decode? he
  rw [Utf8.decode?_encodeList, Utf8.decode?_encodeList] at hchars
  have hplace := congrArg (fun es => skip (glyphs es)) (Option.some.inj hchars)
  simp only [glyphs_append, skip_spelled hbefore hv, skip_spelled hbefore' hv'] at hplace
  have hends : ∀ {ws : List Char}, Blanks ws → Ends (glyphs ws) := fun hw =>
    List.append_nil (glyphs _) ▸ ends_blanks hw ends_nil
  exact (hv.unique hv' (hends hbehind) (hends hbehind') hplace).1

end MachineSpec.Json
