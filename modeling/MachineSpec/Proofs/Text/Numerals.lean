import MachineSpec.Text.Digit

/-!
# Numerals read back

The decimal numeral of a number as the list of the values of its digits, and what reading digits
makes of it.

* `decimals`               the values of the digits of a number, the first one first
* `foldl_decimals`         they lead back to the number
* `decimals_zero_front`    a zero in front stands alone
* `decimals_foldl`         digits behind those of a number
* `digitsFrom_digitChars`  digits in a base read as the number that they spell
-/

namespace MachineSpec.Text

/-- the values of the decimal digits of a number, the first digit first -/
def decimals (n : Nat) : List Nat := if n < 10 then [n] else decimals (n / 10) ++ [n % 10]
termination_by n

theorem decimals_of_lt {n : Nat} (h : n < 10) : decimals n = [n] := by
  rw [decimals, if_pos h]

theorem decimals_of_le {n : Nat} (h : 10 ≤ n) : decimals n = decimals (n / 10) ++ [n % 10] := by
  rw [decimals, if_neg (by omega)]

theorem decimals_ne_nil (n : Nat) : decimals n ≠ [] := by
  rw [decimals]
  split
  · exact List.cons_ne_nil _ _
  · exact List.append_ne_nil_of_right_ne_nil _ (List.cons_ne_nil _ _)

theorem lt_of_mem_decimals {n d : Nat} (h : d ∈ decimals n) : d < 10 := by
  induction n using decimals.induct with
  | case1 n hn =>
    rw [decimals_of_lt hn, List.mem_singleton] at h
    omega
  | case2 n hn ih =>
    rw [decimals_of_le (by omega), List.mem_append, List.mem_singleton] at h
    rcases h with h | h
    · exact ih h
    · omega

theorem foldl_decimals (n : Nat) : (decimals n).foldl (fun m d => m * 10 + d) 0 = n := by
  induction n using decimals.induct with
  | case1 n hn =>
    rw [decimals_of_lt hn]
    show 0 * 10 + n = n
    omega
  | case2 n hn ih =>
    rw [decimals_of_le (by omega), List.foldl_append, ih]
    show n / 10 * 10 + n % 10 = n
    omega

theorem decimals_zero_front {n : Nat} {ds : List Nat} (h : decimals n = 0 :: ds) : ds = [] := by
  induction n using decimals.induct generalizing ds with
  | case1 n hn =>
    rw [decimals_of_lt hn] at h
    cases h
    rfl
  | case2 n hn ih =>
    rw [decimals_of_le (by omega)] at h
    cases hd : decimals (n / 10) with
    | nil => exact absurd hd (decimals_ne_nil _)
    | cons e es =>
      rw [hd] at h
      injection h with he hs
      rw [he] at hd
      have hf := foldl_decimals (n / 10)
      rw [hd, ih hd] at hf
      simp only [List.foldl_cons, List.foldl_nil] at hf
      omega

/-- digits go on behind those of a number that is not zero -/
theorem decimals_foldl {m : Nat} (hm : 0 < m) {ds : List Nat} (h : ∀ d ∈ ds, d < 10) :
    decimals (ds.foldl (fun m d => m * 10 + d) m) = decimals m ++ ds := by
  induction ds generalizing m with
  | nil => exact (List.append_nil _).symm
  | cons d ds ih =>
    have hd := h d List.mem_cons_self
    have hq : (m * 10 + d) / 10 = m := by omega
    have hr : (m * 10 + d) % 10 = d := by omega
    rw [List.foldl_cons, ih (by omega) fun e he => h e (List.mem_cons_of_mem _ he),
      decimals_of_le (n := m * 10 + d) (by omega), hq, hr, List.append_assoc]
    rfl

theorem toList_toString (n : Nat) : (toString n).toList = (decimals n).map Nat.digitChar := by
  show n.repr.toList = _
  rw [Nat.toList_repr]
  induction n using decimals.induct with
  | case1 n hn => rw [Nat.toDigits_of_lt_base hn, decimals_of_lt hn]; rfl
  | case2 n hn ih =>
    rw [decimals_of_le (n := n) (by omega), List.map_append,
      Nat.toDigits_of_base_le (by omega) (by omega), ih]
    rfl

theorem digit?_digitChar_of_lt : ∀ d < 16, digit? 16 d.digitChar = some d := by decide

theorem digit?_digitChar {base d : Nat} (hd : d < base) (hb : base ≤ 16) :
    digit? base d.digitChar = some d := by
  have h := digit?_digitChar_of_lt d (by omega)
  unfold digit? at h ⊢
  obtain ⟨hv, -⟩ := Option.filter_eq_some_iff.1 h
  rw [hv]
  show (if decide (d < base) then some d else none) = some d
  rw [decide_eq_true hd]
  rfl

theorem digitChar_of_digit? {c : Char} {d : Nat} (h : digit? 10 c = some d) :
    d < 10 ∧ c = d.digitChar := by
  have hw : ∀ d < 10, Char.ofNat ('0'.toNat + d) = d.digitChar := by decide
  unfold digit? at h
  obtain ⟨hv, hd⟩ := Option.filter_eq_some_iff.1 h
  have hd : d < 10 := of_decide_eq_true hd
  split at hv
  · next hc =>
    have hle : '0'.toNat ≤ c.toNat := UInt32.le_iff_toNat_le.1 hc.1
    have he : '0'.toNat + d = c.toNat := by
      injection hv with hv
      omega
    exact ⟨hd, by rw [← hw d hd, he, Char.ofNat_toNat]⟩
  split at hv
  · injection hv with hv
    omega
  split at hv
  · injection hv with hv
    omega
  · cases hv

/-- digits of a base are read as the number that they spell -/
theorem digitsFrom_digitChars {base : Nat} (hb : base ≤ 16) (m : Nat) {ds : List Nat}
    (h : ∀ d ∈ ds, d < base) :
    digitsFrom base m (ds.map Nat.digitChar) = some (ds.foldl (fun m d => m * base + d) m) := by
  induction ds generalizing m with
  | nil => rfl
  | cons d ds ih =>
    show (digit? base d.digitChar).bind _ = _
    rw [digit?_digitChar (h d List.mem_cons_self) hb, Option.bind_some,
      ih _ fun e he => h e (List.mem_cons_of_mem _ he)]
    rfl

theorem digitsFrom_decimals (n : Nat) :
    digitsFrom 10 0 ((decimals n).map Nat.digitChar) = some n := by
  rw [digitsFrom_digitChars (by omega) 0 fun d hd => lt_of_mem_decimals hd, foldl_decimals]

theorem isDigit_of_mem_toString {n : Nat} {c : Char} (h : c ∈ (toString n).toList) :
    c.isDigit = true := by
  change c ∈ n.repr.toList at h
  rw [Nat.toList_repr] at h
  exact Nat.isDigit_of_mem_toDigits (by omega) (by omega) h

/-- a numeral starts with a digit -/
theorem exists_toString (n : Nat) : ∃ c cs, (toString n).toList = c :: cs ∧ c.isDigit = true := by
  cases hs : (toString n).toList with
  | nil =>
    rw [toList_toString, List.map_eq_nil_iff] at hs
    exact absurd hs (decimals_ne_nil n)
  | cons c cs =>
    exact ⟨c, cs, rfl, isDigit_of_mem_toString (n := n) (hs ▸ List.mem_cons_self)⟩

end MachineSpec.Text
