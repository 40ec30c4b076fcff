import MachineSpec.Proofs.Yaml.Encoding
import MachineSpec.Proofs.Yaml.Tokens

/-!
# Characters of written texts

Every character that is written may stand in a text, so a written text is read back as the
characters it was written as.

* `allowed_write`             a text in its form
* `InLines.allowed`           a document
* `InLines.ofBytes_eq`        the characters in the bytes of a document
-/

namespace MachineSpec.Yaml

open Quoting Printer

theorem isAllowed_of_isPrintable {c : Char} (h : isPrintable c = true) : isAllowed c = true := by
  simp only [isPrintable, Bool.or_eq_true, Bool.and_eq_true, decide_eq_true_eq] at h
  simp only [isAllowed, Bool.or_eq_true, Bool.and_eq_true, decide_eq_true_eq]
  omega

def Allowed (cs : List Char) : Prop := ∀ c ∈ cs, isAllowed c = true

namespace Allowed

variable {cs ds : List Char} {c : Char}

theorem nil : Allowed [] := fun _ h => (List.not_mem_nil h).elim

theorem cons (hc : isAllowed c = true) (h : Allowed cs) : Allowed (c :: cs) := by
  intro d hd
  rcases List.mem_cons.1 hd with rfl | hd
  · exact hc
  · exact h d hd

theorem append (h : Allowed cs) (h' : Allowed ds) : Allowed (cs ++ ds) := by
  intro d hd
  rcases List.mem_append.1 hd with hd | hd
  · exact h d hd
  · exact h' d hd

theorem pad (n : Nat) : Allowed (pad n) := by
  intro d hd
  rw [List.eq_of_mem_replicate hd]
  rfl

theorem printable (h : ∀ c ∈ cs, isPrintable c = true) : Allowed cs :=
  fun d hd => isAllowed_of_isPrintable (h d hd)

theorem word (h : ∀ c ∈ cs, isWordChar c = true) : Allowed cs :=
  printable fun d hd => isPrintable_of_isWordChar (h d hd)

end Allowed

/-! ## texts -/

theorem isAllowed_hexDigit : ∀ d < 16, isAllowed (hexDigit d) = true := by decide

theorem allowed_hex (width n : Nat) : Allowed (hex width n) := by
  induction width generalizing n with
  | zero => exact .nil
  | succ w ih => exact (ih _).append (.cons (isAllowed_hexDigit _ (Nat.mod_lt n (by decide))) .nil)

theorem isAllowed_letters : ∀ l ∈ letters, isAllowed l.2 = true := by decide

theorem allowed_escapeChar (c : Char) : Allowed (escapeChar c) := by
  unfold escapeChar
  split
  · next h =>
    simp only [Bool.and_eq_true] at h
    exact .cons (isAllowed_of_isPrintable h.1.1.1) .nil
  · split
    · next x hx =>
      obtain ⟨l₁, l₂, hl, -⟩ := List.lookup_eq_some_iff.1 hx
      have hm : (c, x) ∈ letters := hl ▸ List.mem_append_right _ List.mem_cons_self
      exact .cons rfl (.cons (isAllowed_letters (c, x) hm) .nil)
    · split
      · exact .cons rfl (.cons rfl (allowed_hex 2 _))
      · split
        · exact .cons rfl (.cons rfl (allowed_hex 4 _))
        · exact .cons rfl (.cons rfl (allowed_hex 8 _))

theorem allowed_double (s : List Char) : Allowed (double s) := by
  refine .cons rfl (.append (fun d hd => ?_) (.cons rfl .nil))
  obtain ⟨c, -, hc⟩ := List.mem_flatMap.1 hd
  exact allowed_escapeChar c d hc

theorem allowed_padded (indent : Nat) (broken : Bool) :
    Allowed (if broken = true then pad indent else []) := by
  cases broken with
  | true => exact .pad indent
  | false => exact .nil

theorem allowed_singleFrom {s : List Char} (h : ∀ c ∈ s, isPrintable c = true) (indent : Nat)
    (broken : Bool) : Allowed (singleFrom indent broken s) := by
  induction s generalizing broken with
  | nil => exact (allowed_padded indent broken).append (.cons rfl .nil)
  | cons c s ih =>
    obtain ⟨hc, hs⟩ := List.forall_mem_cons.1 h
    have hc := isAllowed_of_isPrintable hc
    rw [singleFrom]
    by_cases hb : isBreak c = true
    · rw [if_pos hb]
      exact .cons hc (ih hs true)
    · rw [if_neg hb]
      refine .append (.append (allowed_padded indent broken) ?_) (ih hs false)
      split
      · exact .cons rfl (.cons rfl .nil)
      · exact .cons hc .nil

theorem allowed_blockFrom {s : List Char} (h : ∀ c ∈ s, isPrintable c = true) (indent : Nat)
    (broken : Bool) : Allowed (blockFrom indent broken s) := by
  induction s generalizing broken with
  | nil =>
    cases broken with
    | true => exact .nil
    | false => exact .cons rfl .nil
  | cons c s ih =>
    obtain ⟨hc, hs⟩ := List.forall_mem_cons.1 h
    have hc := isAllowed_of_isPrintable hc
    rw [blockFrom]
    by_cases hb : isBreak c = true
    · rw [if_pos hb]
      exact .cons hc (ih hs true)
    · rw [if_neg hb]
      exact .append (allowed_padded indent broken) (.cons hc (ih hs false))

theorem allowed_block {s : List Char} (h : ∀ c ∈ s, isPrintable c = true) (indent : Nat) :
    Allowed (block indent s) := by
  refine .cons rfl (.append (.append ?_ ?_) (.cons rfl (allowed_blockFrom h indent true)))
  · split
    · exact .cons rfl .nil
    · exact .nil
  · unfold chomping
    split
    · exact .cons rfl .nil
    · split
      · exact .cons rfl .nil
      · split
        · exact .cons rfl .nil
        · exact .nil

/-- the characters of a text in its form may stand there, whatever the text itself holds -/
theorem allowed_write (indent : Nat) (s : List Char) : Allowed (write indent s) := by
  have hspec := Place.styleOf_spec s
  unfold write
  cases hs : styleOf s with
  | plain =>
    rw [hs] at hspec
    exact .append (.printable (canBePlain_iff.1 hspec.1).1) (.cons rfl .nil)
  | single =>
    rw [hs, canBeSingle] at hspec
    have hp := (Bool.and_eq_true_iff.1 (Bool.and_eq_true_iff.1 hspec.1).1).1
    have ha := allowed_singleFrom (List.all_eq_true.1 hp) indent false
    exact .append (.cons rfl ha) (.cons rfl .nil)
  | double => exact .append (allowed_double s) (.cons rfl .nil)
  | literal =>
    rw [hs, canBeBlock] at hspec
    have hp := (Bool.and_eq_true_iff.1 (Bool.and_eq_true_iff.1 hspec.1).1).1
    exact allowed_block (List.all_eq_true.1 hp) indent
  | folded =>
    rw [hs] at hspec
    exact hspec.elim

/-! ## documents -/

theorem allowed_stack (indent : Nat) {ps : List (List Char)} (h : ∀ p ∈ ps, Allowed p) :
    Allowed (stack indent ps) := by
  induction ps with
  | nil => exact .nil
  | cons p ps ih =>
    obtain ⟨hp, hps⟩ := List.forall_mem_cons.1 h
    cases ps with
    | nil =>
      rw [stack_one]
      exact hp
    | cons q ps =>
      rw [stack_cons]
      exact hp.append (.append (.pad indent) (ih hps))

theorem allowed_items (indent : Nat) {ds : List Document}
    (h : ∀ d ∈ ds, Allowed (item indent d)) : ∀ p ∈ items indent ds, Allowed p := by
  induction ds with
  | nil => exact fun p hp => (List.not_mem_nil hp).elim
  | cons d ds ih =>
    obtain ⟨hd, hds⟩ := List.forall_mem_cons.1 h
    rw [items]
    exact List.forall_mem_cons.2 ⟨.cons rfl (.cons rfl hd), ih hds⟩

theorem allowed_members (indent : Nat) {ms : List (String × Document)}
    (hk : ∀ m ∈ ms, Place.IsKey m.1.toList) (h : ∀ m ∈ ms, Allowed (value indent m.2)) :
    ∀ p ∈ members indent ms, Allowed p := by
  induction ms with
  | nil => exact fun p hp => (List.not_mem_nil hp).elim
  | cons m ms ih =>
    obtain ⟨hm, hms⟩ := List.forall_mem_cons.1 h
    obtain ⟨hkey, hkeys⟩ := List.forall_mem_cons.1 hk
    rw [members]
    exact List.forall_mem_cons.2 ⟨.append (.word hkey.word) (.cons rfl hm), ih hkeys hms⟩

theorem allowed_line {d : Document} (h : isLine d = true) (indent : Nat) :
    Allowed (item indent d) := by
  cases d with
  | text s =>
    rw [item]
    exact allowed_write _ _
  | number n =>
    rw [item]
    exact .append (.word fun c hc => isWordChar_number hc) (.cons rfl .nil)
  | flag b =>
    rw [item]
    exact .append (.word (isWordChar_flag b)) (.cons rfl .nil)
  | list ds =>
    cases ds with
    | nil =>
      rw [item]
      exact .cons rfl (.cons rfl (.cons rfl .nil))
    | cons d ds => cases h
  | record ms =>
    cases ms with
    | nil =>
      rw [item]
      exact .cons rfl (.cons rfl (.cons rfl .nil))
    | cons m ms => cases h

/-- a document as a member and as an item -/
theorem InLines.allowed {d : Document} (h : InLines d) (indent : Nat) :
    Allowed (value indent d) ∧ Allowed (item indent d) := by
  revert indent
  refine h.induct (fun d _ hd indent => ?_) (fun d ds _ _ ih indent => ?_)
    fun m ms hk ih indent => ?_
  · rw [value_of_isLine hd]
    exact ⟨.cons rfl (allowed_line hd indent), allowed_line hd indent⟩
  · have hs : ∀ k, Allowed (stack k (items k (d :: ds))) := fun k =>
      allowed_stack k (allowed_items k fun q hq => (ih q hq k).2)
    rw [value_list, item_list]
    exact ⟨.cons rfl (.append (.pad indent) (hs indent)), hs _⟩
  · have hs : ∀ k, Allowed (stack k (members k (m :: ms))) := fun k =>
      allowed_stack k (allowed_members k hk fun q hq => (ih q hq k).1)
    rw [value_record, item_record]
    exact ⟨.cons rfl (.append (.pad _) (hs _)), hs _⟩

theorem InLines.allowed_print {ms : List (String × Document)} (h : InLines (.record ms)) :
    Allowed (printList (.record ms)) := by
  cases h with
  | record keys hi =>
    cases ms with
    | nil => exact .cons rfl (.cons rfl (.cons rfl .nil))
    | cons m ms =>
      exact allowed_stack 0 (allowed_members 0 keys fun q hq => ((hi q hq).allowed 0).1)

/-- the bytes of a written record hold its characters -/
theorem InLines.ofBytes_eq {ms : List (String × Document)} (h : InLines (.record ms)) :
    Characters.ofBytes (Utf8.encode (print (.record ms))) = ⟨printList (.record ms), none⟩ := by
  have hb := Characters.ofBytes_encodeList h.allowed_print
  rw [Utf8.encode, print, String.toList_ofList]
  exact hb

end MachineSpec.Yaml
