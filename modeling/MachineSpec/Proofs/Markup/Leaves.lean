import MachineSpec.Markup.Content
import MachineSpec.Markup.Layout
import MachineSpec.Proofs.Reference.Selection
import MachineSpec.Proofs.Text.Numerals
import MachineSpec.Proofs.Text.Runs

/-!
# Written leaves read back

An element that holds no others is read as what was written into it: a text, a number, a keyword, or
the reference that a selection stands for.

* `trim_of_forall`                 a text without blanks has none at its ends
* `Element.number?_toString`       a numeral is read as its number
* `outcome_asText`, `outcome_asNumber`, `outcome_asKeyword`   leaves without attributes
* `Nodes.value_selected`           the node of a reference
* `outcome_asReference`            it is read as the canonical reference
-/

namespace MachineSpec.Markup

open Logged (outcome)

/-! ## blanks -/

theorem trim_of_forall {s : String} (h : ∀ c ∈ s.toList, Text.isBlank c = false) :
    Text.trim s = s := by
  have hl : ∀ cs : List Char, (∀ c ∈ cs, Text.isBlank c = false) →
      cs.dropWhile Text.isBlank = cs := fun cs hc =>
    Text.dropWhile_of_stops fun x hx => hc x (List.mem_of_mem_head? hx)
  unfold Text.trim Text.trimList
  rw [hl _ h, hl _ fun c hc => h c (List.mem_reverse.1 hc), List.reverse_reverse,
    String.ofList_toList]

theorem isBlank_of_isDigit {c : Char} (h : c.isDigit = true) : Text.isBlank c = false := by
  have h1 : 48 ≤ c.toNat ∧ c.toNat ≤ 57 := by
    simp only [Char.isDigit, Bool.and_eq_true, decide_eq_true_eq, ge_iff_le, UInt32.le_iff_toNat_le]
      at h
    exact h
  unfold Text.isBlank
  simp only [Bool.or_eq_false_iff, Bool.and_eq_false_iff, decide_eq_false_iff_not]
  omega

theorem ne_plus_of_isDigit {c : Char} (h : c.isDigit = true) : c ≠ '+' := by
  rintro rfl
  cases h

namespace Element

/-! ## leaves without attributes -/

theorem outcome_allow_nil (name text : String) (es : List Element) (keys : List String) :
    outcome (allow (.mk name [] text es) keys) = .ok () := rfl

theorem outcome_asText (name text : String) :
    outcome (asText (.mk name [] text [])) = .ok text := rfl

theorem toNat_digitChar : ∀ d < 10, d.digitChar.toNat - '0'.toNat = d := by decide

theorem foldl_digitChars (m : Nat) {ds : List Nat} (h : ∀ d ∈ ds, d < 10) :
    (ds.map Nat.digitChar).foldl (fun n c => n * 10 + (c.toNat - '0'.toNat)) m =
      ds.foldl (fun n d => n * 10 + d) m := by
  induction ds generalizing m with
  | nil => rfl
  | cons d ds ih =>
    rw [List.map_cons, List.foldl_cons, toNat_digitChar d (h d List.mem_cons_self),
      ih _ fun e he => h e (List.mem_cons_of_mem _ he), List.foldl_cons]

theorem number?_of_digits {cs : List Char} (hne : cs ≠ []) (hd : ∀ c ∈ cs, c.isDigit = true) :
    number? cs =
      let n := cs.foldl (fun n c => n * 10 + (c.toNat - '0'.toNat)) 0
      if n < UInt32.size then some n.toUInt32 else none := by
  simp only [number?]
  split
  · next r => exact absurd rfl (ne_plus_of_isDigit (hd '+' List.mem_cons_self))
  · rw [if_neg (by simpa using hne), if_pos (List.all_eq_true.2 hd)]

/-- a numeral is read as its number -/
theorem number?_toString (n : UInt32) : number? (toString n.toNat).toList = some n := by
  have hl := Text.toList_toString n.toNat
  have hne : (toString n.toNat).toList ≠ [] := by
    rw [hl]
    exact fun h => Text.decimals_ne_nil _ (List.map_eq_nil_iff.1 h)
  have hf : (toString n.toNat).toList.foldl (fun n c => n * 10 + (c.toNat - '0'.toNat)) 0 =
      n.toNat := by
    rw [hl, foldl_digitChars 0 fun d h => Text.lt_of_mem_decimals h, Text.foldl_decimals]
  rw [number?_of_digits hne fun c hc => Text.isDigit_of_mem_toString hc, hf]
  show (if n.toNat < UInt32.size then some n.toNat.toUInt32 else none) = some n
  rw [if_pos n.toNat_lt]
  exact congrArg some UInt32.ofNat_toNat

theorem outcome_asNumber (name : String) (n : UInt32) :
    outcome (asNumber (.mk name [] (toString n.toNat) [])) = .ok n := by
  have ht : Text.trim (toString n.toNat) = toString n.toNat := trim_of_forall fun c hc =>
    isBlank_of_isDigit (Text.isDigit_of_mem_toString hc)
  have hne : toString n.toNat ≠ "" := fun h => by
    have hl := Text.toList_toString n.toNat
    rw [h] at hl
    exact Text.decimals_ne_nil _ (List.map_eq_nil_iff.1 hl.symm)
  unfold asNumber
  rw [Logged.outcome_bind, outcome_asText]
  show outcome (if Text.trim (toString n.toNat) = "" then _ else _) = _
  rw [ht, if_neg hne, number?_toString]
  rfl

variable {α : Type} [Keyword α] [LawfulKeyword α]

theorem outcome_keyword (e : Element) {a : α} (ha : Text.trim (Keyword.word a) = Keyword.word a) :
    outcome (e.keyword (Keyword.word a)) = .ok a := by
  unfold keyword
  rw [ha, LawfulKeyword.ofWord?_word]
  rfl

theorem outcome_asKeyword (name : String) {a : α}
    (ha : Text.trim (Keyword.word a) = Keyword.word a) :
    outcome (asKeyword (.mk name [] (Keyword.word a) [])) = .ok a := by
  unfold asKeyword
  rw [Logged.outcome_bind, outcome_asText]
  exact outcome_keyword _ ha

end Element

/-! ## references -/

def markerAttributes (marker? : Option String) : List (String × String) :=
  (marker?.map fun m => ("by", m)).toList

end Markup

open Markup
open Logged (outcome)

/-- the node of an entity, by the selector that stands for it -/
theorem Nodes.value_selected {α : Type} [Lookup α] (name : String) (a : α) :
    (selected name a).value = (Lookup.selection? a).elim (.lone name []) fun s =>
      .leaf name (markerAttributes s.marker?) s.value := by
  unfold selected
  rw [Logged.value_bind, Lookup.value_select]
  cases Lookup.selection? a with
  | none => rfl
  | some s =>
    dsimp only [Option.elim_some]
    cases s.marker? <;> rfl

namespace Markup.Element
variable {k : Kind}

/-- the selector of a written leaf is the one that its selection names -/
theorem outcome_selector {r : Reference k} {s : Selection} {i : Fin k.selectors.length}
    (h : r.selection? = some s) (hi : Reference.index? k s.selector = some i) (name text : String) :
    outcome ((Element.mk name (markerAttributes s.marker?) text []).selector k) = .ok i := by
  have ha : outcome (allow (.mk name (markerAttributes s.marker?) text []) ["by"]) = .ok () := by
    cases s.marker? <;> rfl
  have hk : (Element.mk name (markerAttributes s.marker?) text []).attribute? "by" = s.marker? := by
    cases s.marker? <;> rfl
  unfold selector
  rw [Logged.outcome_bind, ha]
  show outcome ((k.named (attribute? _ "by")).adapt _) = _
  rw [hk, Logged.outcome_adapt, Reference.outcome_named h hi]
  rfl

/-- a lone tag names some selector, and without a text it makes no difference which -/
theorem exists_outcome_selector (k : Kind) (name : String) :
    ∃ i, outcome ((Element.mk name [] "" []).selector k) = .ok i ∧
      (Reference.empty (k := k)).put i "" = .empty := by
  have hp : ∃ i, outcome ((Element.mk name [] "" []).selector k) = .ok i := by
    cases k <;> exact ⟨_, rfl⟩
  obtain ⟨i, hi⟩ := hp
  refine ⟨i, hi, ?_⟩
  show Reference.mk ((Vector.replicate _ "").set i.val "" i.isLt) = ⟨Vector.replicate _ ""⟩
  congr 1
  exact Vector.set_replicate_self

theorem outcome_asReference (name : String) (r : Reference k) :
    outcome (asReference (Nodes.selected name r).value.toElement) = .ok r.canonical := by
  have hs : Lookup.selection? r = r.selection? := rfl
  rw [Nodes.value_selected, hs]
  cases h : r.selection? with
  | none =>
    obtain ⟨i, hi, he⟩ := exists_outcome_selector k name
    show outcome (asReference (.mk name [] "" [])) = _
    unfold asReference
    rw [Logged.outcome_bind, hi]
    show Except.ok ((Reference.empty (k := k)).put i "") = _
    rw [he, Reference.canonical_of_none h]
  | some s =>
    obtain ⟨-, -, i, hi⟩ := Reference.exists_selection h
    show outcome (asReference (.mk name (markerAttributes s.marker?) s.value [])) = _
    unfold asReference
    rw [Logged.outcome_bind, outcome_selector h hi, Reference.canonical_eq_put h hi]
    rfl

end Markup.Element

end MachineSpec
