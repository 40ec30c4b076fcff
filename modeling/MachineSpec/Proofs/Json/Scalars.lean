import MachineSpec.Json.Number
import MachineSpec.Json.Quoted
import MachineSpec.Proofs.Text.Numerals
import MachineSpec.Proofs.Text.Runs

/-!
# JSON strings and numbers read back

A written character is read as the character, whatever follows; a numeral is read as a whole where
no further digit, point or exponent follows.

* `glyphs`                  characters as a place
* `Quoted.piece_writeChar`  a written character is the next piece of its string
* `Digit.Ends`              what may follow a number
* `Number.scan_toString`    a numeral
-/

namespace MachineSpec.Json

def glyphs (cs : List Char) : Place := cs.map .char

theorem glyphs_append (cs ds : List Char) : glyphs (cs ++ ds) = glyphs cs ++ glyphs ds :=
  List.map_append

namespace Quoted

/-! ## strings -/

theorem piece_char (c : Char) (r : Place) :
    piece (.char c :: r) =
      if c = '"' then .ok (.close, r)
      else if c = '\\' then (fun (c, r) => (.char c, r)) <$> escape r
      else if c.toNat < 0x20 then .error (.past .controlCharacter (.char c :: r) 1)
      else .ok (.char c, r) := rfl

theorem piece_of_escape {c : Char} {p r : Place} (h : escape p = .ok (c, r)) :
    piece (.char '\\' :: p) = .ok (.char c, r) := by
  rw [piece_char, if_neg (by decide), if_pos rfl, h]
  rfl

theorem escape_of_letter {l c : Char} (hu : l ≠ 'u') (h : escaped? l = some c) (r : Place) :
    escape (.char l :: r) = .ok (c, r) := by
  unfold escape
  split
  · next heq => cases heq
  · next heq => cases heq; exact absurd rfl hu
  · next heq =>
    cases heq
    rw [h]
  · next hn => exact absurd rfl (hn l r)

theorem escaped?_controlLetter {c l : Char} (h : controlLetter? c = some l) :
    l ≠ 'u' ∧ escaped? l = some c := by
  unfold controlLetter? at h
  split at h
  · next hc => cases h; cases hc; decide
  split at h
  · next hc => cases h; cases hc; decide
  split at h
  · next hc => cases h; cases hc; decide
  split at h
  · next hc => cases h; cases hc; decide
  split at h
  · next hc => cases h; cases hc; decide
  · cases h

theorem hexValue?_digitChar {d : Nat} (h : d < 16) : hexValue? (.char d.digitChar) = some d :=
  Text.digit?_digitChar h (by omega)

theorem numbered_control {c : Char} (h : c.toNat < 0x20) (r : Place) :
    numbered (.char '0' :: .char '0' :: .char (c.toNat / 16).digitChar ::
      .char (c.toNat % 16).digitChar :: r) = .ok (c, r) := by
  have h0 : hexValue? (.char '0') = some 0 := hexValue?_digitChar (d := 0) (by omega)
  have h1 : hexValue? (.char (c.toNat / 16).digitChar) = some (c.toNat / 16) :=
    hexValue?_digitChar (by omega)
  have h2 : hexValue? (.char (c.toNat % 16).digitChar) = some (c.toNat % 16) :=
    hexValue?_digitChar (by omega)
  have hn : ((0 * 16 + 0) * 16 + c.toNat / 16) * 16 + c.toNat % 16 = c.toNat := by omega
  unfold numbered hex4
  simp only [h0, h1, h2, hn]
  rw [if_neg (by omega), if_neg (by omega), Char.ofNat_toNat]

theorem piece_writeChar (c : Char) (r : Place) :
    piece (glyphs (writeChar c) ++ r) = .ok (.char c, r) := by
  unfold writeChar
  split
  · next hc => rw [hc]; rfl
  split
  · next hc => rw [hc]; rfl
  next hq hb =>
  split
  · next hc =>
    split
    · next l hl =>
      obtain ⟨hu, he⟩ := escaped?_controlLetter hl
      exact piece_of_escape (escape_of_letter hu he r)
    · exact piece_of_escape (numbered_control hc r)
  · next hc =>
    show piece (.char c :: r) = _
    rw [piece_char, if_neg hq, if_neg hb, if_neg hc]

end Quoted

/-! ## numbers -/

namespace Digit

/-- what may follow a value: the next part of a list or an object, its end, or white space -/
def enders : List Char := [',', ']', '\x7d', ' ', '\n', '\t', '\r']

/-- a place where a number ends for sure -/
def Ends (rest : Place) : Prop := ∀ g, rest.head? = some g → ∃ c ∈ enders, g = .char c

theorem ends_nil : Ends [] := fun _ h => by cases h

theorem ends_cons {c : Char} (h : c ∈ enders) (rest : Place) : Ends (.char c :: rest) :=
  fun g hg => by
    cases hg
    exact ⟨c, h, rfl⟩

theorem value?_digitChar {d : Nat} (h : d < 10) : value? (.char d.digitChar) = some d :=
  Text.digit?_digitChar h (by omega)

theorem value?_head {rest : Place} (h : Ends rest) : rest.head?.bind value? = none := by
  cases rest with
  | nil => rfl
  | cons g rest =>
    obtain ⟨c, hc, rfl⟩ := h g rfl
    simp only [enders, List.mem_cons, List.not_mem_nil, or_false] at hc
    rcases hc with rfl | rfl | rfl | rfl | rfl | rfl | rfl <;> rfl

theorem run_of_ends {rest : Place} (h : Ends rest) : run rest = ([], rest) := by
  cases rest with
  | nil => rfl
  | cons g rest =>
    have hv : value? g = none := value?_head h
    rw [run, hv]

theorem run_digits {ds : List Nat} (hd : ∀ d ∈ ds, d < 10) {rest : Place} (h : Ends rest) :
    run (glyphs (ds.map Nat.digitChar) ++ rest) = (ds, rest) := by
  induction ds with
  | nil => exact run_of_ends h
  | cons d ds ih =>
    show run (.char d.digitChar :: (glyphs (ds.map Nat.digitChar) ++ rest)) = _
    rw [run, value?_digitChar (hd d List.mem_cons_self),
      ih fun e he => hd e (List.mem_cons_of_mem _ he)]

theorem le_foldl (m : Nat) (ds : List Nat) : m ≤ ds.foldl (fun m d => m * 10 + d) m := by
  induction ds generalizing m with
  | nil => exact Nat.le_refl m
  | cons d ds ih => exact Nat.le_trans (by omega) (ih (m * 10 + d))

theorem absorb_of_le {limit m : Nat} {ds : List Nat}
    (h : ds.foldl (fun m d => m * 10 + d) m ≤ limit) :
    absorb limit m ds = (ds.foldl (fun m d => m * 10 + d) m, ds.length, []) := by
  induction ds generalizing m with
  | nil => rfl
  | cons d ds ih =>
    have hle : m * 10 + d ≤ limit := Nat.le_trans (le_foldl _ ds) h
    rw [absorb, if_neg (Nat.not_lt.2 hle), ih h]
    rfl

end Digit

namespace Number

open Digit

theorem scanRest_of_ends {rest : Place} (h : Ends rest) (n : Nat) :
    scanRest true n [] rest = .ok (.natural n, rest) := by
  cases rest with
  | nil => rfl
  | cons g rest =>
    obtain ⟨c, hc, rfl⟩ := h g rfl
    simp only [enders, List.mem_cons, List.not_mem_nil, or_false] at hc
    rcases hc with rfl | rfl | rfl | rfl | rfl | rfl | rfl <;> rfl

/-- a numeral is read as a whole where a number ends for sure -/
theorem scan_toString {n : Nat} (hn : n ≤ wordLimit) {rest : Place} (h : Ends rest) :
    scan true (glyphs (toString n).toList ++ rest) = .ok (.natural n, rest) := by
  have hf := Text.foldl_decimals n
  have hd : ∀ d ∈ Text.decimals n, d < 10 := fun d => Text.lt_of_mem_decimals
  rw [Text.toList_toString]
  cases hs : Text.decimals n with
  | nil => exact absurd hs (Text.decimals_ne_nil n)
  | cons d ds =>
    rw [hs] at hf hd
    have hv := value?_digitChar (hd d List.mem_cons_self)
    have hr := run_digits (fun e he => hd e (List.mem_cons_of_mem _ he)) h
    show scan true (.char d.digitChar :: (glyphs (ds.map Nat.digitChar) ++ rest)) = _
    cases d with
    | zero =>
      obtain rfl := Text.decimals_zero_front hs
      obtain rfl : n = 0 := hf.symm
      show scan true (.char '0' :: rest) = _
      unfold scan
      simp only [value?_head h]
      exact scanRest_of_ends h 0
    | succ d =>
      have hm : ds.foldl (fun m d => m * 10 + d) (d + 1) = n := by
        rw [List.foldl_cons, Nat.zero_mul, Nat.zero_add] at hf
        exact hf
      unfold scan
      simp only [hv, hr]
      rw [absorb_of_le (by rw [hm]; exact hn), hm]
      exact scanRest_of_ends h n

end Number

end MachineSpec.Json
