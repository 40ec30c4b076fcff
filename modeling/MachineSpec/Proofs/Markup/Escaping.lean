import MachineSpec.Markup.Escape
import MachineSpec.Proofs.Text.Runs

/-!
# Escaped text reads back

A text that was escaped holds none of the characters that markup is made of, and unescaping it gives
the text again, whatever characters it has.

* `not_mem_escapeList`       no bracket and no quote stands in escaped text
* `unescapeFrom_escapeList`  escaped text leads back to the text
-/

namespace MachineSpec.Markup

theorem escapeChar_of_mem {name : String} {c : Char} (h : (name, c) ∈ entities) :
    escapeChar c = '&' :: (name.toList ++ [';']) := by
  simp only [entities, List.mem_cons, List.not_mem_nil, or_false] at h
  rcases h with h | h | h | h | h <;> cases h <;> rfl

theorem escapeChar_of_not_mem {c : Char} (h : ∀ e ∈ entities, e.2 ≠ c) : escapeChar c = [c] := by
  have hn : entities.find? (fun e => e.2 = c) = none :=
    List.find?_eq_none.2 fun e he => by simpa using h e he
  unfold escapeChar
  rw [hn]

theorem named_or_plain (c : Char) :
    (∃ name, (name, c) ∈ entities) ∨ (∀ e ∈ entities, e.2 ≠ c) := by
  by_cases h : ∃ e ∈ entities, e.2 = c
  · obtain ⟨e, he, rfl⟩ := h
    exact .inl ⟨e.1, he⟩
  · exact .inr fun e he hc => h ⟨e, he, hc⟩

/-- the letters of a name are none of the characters with a name, and end no name -/
theorem name_letters {name : String} {c : Char} (h : (name, c) ∈ entities) :
    ∀ x ∈ name.toList, stops x = false ∧ ∀ e ∈ entities, e.2 ≠ x := by
  have hall : ∀ e ∈ entities,
      (e.1.toList.all fun x => !stops x && entities.all fun e => e.2 != x) = true := by decide
  intro x hx
  have hletter := List.all_eq_true.1 (hall _ h) x hx
  simpa using hletter

theorem not_mem_escapeChar {c x : Char} (hx : ∃ e ∈ entities, e.2 = x) (ha : x ≠ '&') :
    x ∉ escapeChar c := by
  obtain ⟨e, he, rfl⟩ := hx
  rcases named_or_plain c with ⟨name, hn⟩ | hn
  · rw [escapeChar_of_mem hn, List.mem_cons, List.mem_append, List.mem_singleton]
    rintro (h | h | h)
    · exact ha h
    · exact (name_letters hn _ h).2 e he rfl
    · simp only [entities, List.mem_cons, List.not_mem_nil, or_false] at he
      rcases he with he | he | he | he | he <;> cases he <;> exact absurd h (by decide)
  · rw [escapeChar_of_not_mem hn, List.mem_singleton]
    exact hn e he

/-- no bracket and no quote stands in escaped text -/
theorem not_mem_escapeList (cs : List Char) {x : Char} (hx : x ∈ ['<', '>', '\'', '"']) :
    x ∉ escapeList cs := by
  intro h
  obtain ⟨c, -, hc⟩ := List.mem_flatMap.1 h
  simp only [List.mem_cons, List.not_mem_nil, or_false] at hx
  rcases hx with rfl | rfl | rfl | rfl <;>
    exact not_mem_escapeChar (by decide) (by decide) hc

theorem escapeList_cons (c : Char) (cs : List Char) :
    escapeList (c :: cs) = escapeChar c ++ escapeList cs := rfl

/-! ## reading -/

theorem unescapeFrom_name {name : List Char} (h : ∀ x ∈ name, stops x = false) (start : Nat)
    (t : List Char) :
    unescapeFrom start ('&' :: (name ++ ';' :: t)) = (do
      let c ← named (start + 1) name
      let cs ← unescapeFrom (start + 1 + width name + 1) t
      return c :: cs) := by
  have hp : ∀ x ∈ name, (!stops x) = true := fun x hx => by rw [h x hx]; rfl
  have ht : (name ++ ';' :: t).takeWhile (fun c => !stops c) = name :=
    Text.takeWhile_stop hp rfl
  have hd : (name ++ ';' :: t).dropWhile (fun c => !stops c) = ';' :: t :=
    Text.dropWhile_stop hp rfl
  rw [unescapeFrom]
  split
  · next heq =>
    rw [hd] at heq
    cases heq
    rw [ht]
  · next hne => exact absurd hd (hne t)

theorem unescapeFrom_plain {c : Char} (h : c ≠ '&') (start : Nat) (t : List Char) :
    unescapeFrom start (c :: t) = (do
      let cs ← unescapeFrom (start + Utf8.size c) t
      return c :: cs) := by
  rw [unescapeFrom.eq_def]
  split
  · next heq => cases heq
  · next heq => cases heq; exact absurd rfl h
  · next heq => cases heq; rfl

theorem named_of_mem {name : String} {c : Char} (h : (name, c) ∈ entities) (start : Nat) :
    named start name.toList = .ok c := by
  simp only [entities, List.mem_cons, List.not_mem_nil, or_false] at h
  rcases h with h | h | h | h | h <;> cases h <;> rfl

/-- escaped text leads back to the text -/
theorem unescapeFrom_escapeList (cs : List Char) (start : Nat) :
    unescapeFrom start (escapeList cs) = .ok cs := by
  induction cs generalizing start with
  | nil => rw [show escapeList [] = [] from rfl, unescapeFrom]
  | cons c cs ih =>
    rw [escapeList_cons]
    rcases named_or_plain c with ⟨name, hn⟩ | hn
    · rw [escapeChar_of_mem hn, List.cons_append, List.append_assoc]
      show unescapeFrom start ('&' :: (name.toList ++ ';' :: escapeList cs)) = _
      rw [unescapeFrom_name fun x hx => (name_letters hn x hx).1, named_of_mem hn, ih]
      rfl
    · have ha : c ≠ '&' := fun hc => hn ("amp", '&') (by decide) hc.symm
      rw [escapeChar_of_not_mem hn]
      show unescapeFrom start (c :: escapeList cs) = _
      rw [unescapeFrom_plain ha, ih]
      rfl

theorem unescape_escapeList (cs : List Char) :
    unescape (escapeList cs) = .ok (String.ofList cs) := by
  unfold unescape
  rw [unescapeFrom_escapeList]
  rfl

end MachineSpec.Markup
