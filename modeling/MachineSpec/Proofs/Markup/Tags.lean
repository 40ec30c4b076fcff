import MachineSpec.Markup.Node
import MachineSpec.Proofs.Markup.Spelling

/-!
# Written tags are spelled tags

A tag is written as a name and attributes with quoted values.  If the names are words and no
attribute comes twice, that is one of the spellings of the tag.

* `isName`                    a word of letters, as every name of a written tag is
* `Node.tag`                  the inside of a tag as characters
* `Node.spelled_escapeList`   a text is written as one of its spellings
* `Node.spelled_attributes`   and so are attributes
-/

namespace MachineSpec.Markup

def isName (s : String) : Bool := !s.toList.isEmpty && s.toList.all Char.isAlpha

theorem isAlpha_of_isName {s : String} (h : isName s = true) :
    ∀ c ∈ s.toList, c.isAlpha = true := by
  rw [isName, Bool.and_eq_true] at h
  exact List.all_eq_true.1 h.2

theorem letter_ne {c : Char} (h : c.isAlpha = true) :
    c ∉ ['<', '>', '"', '\'', '/', '!', '?', '=', ' ', '\t', '\r', '\n'] := by
  intro hc
  simp only [List.mem_cons, List.not_mem_nil, or_false] at hc
  rcases hc with rfl | rfl | rfl | rfl | rfl | rfl | rfl | rfl | rfl | rfl | rfl | rfl <;>
    exact absurd h (by decide)

theorem isNameStart_of_isAlpha {c : Char} (h : c.isAlpha = true) : isNameStart c = true := by
  have hrange : ∃ r ∈ nameStarts, r.1 ≤ c.toNat ∧ c.toNat ≤ r.2 := by
    rcases Bool.or_eq_true_iff.1 h with h | h
    · have hupper : 0x41 ≤ c.toNat ∧ c.toNat ≤ 0x5A := of_decide_eq_true h
      exact ⟨(0x41, 0x5A), by decide, hupper⟩
    · have hlower : (decide (0x61 ≤ c.toNat) && decide (c.toNat ≤ 0x7A)) = true := h
      rw [Bool.and_eq_true, decide_eq_true_iff, decide_eq_true_iff] at hlower
      exact ⟨(0x61, 0x7A), by decide, hlower⟩
  obtain ⟨r, hr, hlow, hhigh⟩ := hrange
  refine List.any_eq_true.2 ⟨r, hr, ?_⟩
  rw [decide_eq_true hlow, decide_eq_true hhigh]
  rfl

theorem isXmlName_of_isName {s : String} (h : isName s = true) : IsXmlName s := by
  have hl := isAlpha_of_isName h
  refine ⟨?_, ?_, List.all_eq_true.2 fun c hc => ?_⟩
  · rintro rfl
    cases h
  · cases hs : s.toList with
    | nil => rfl
    | cons c r => exact isNameStart_of_isAlpha (hl c (by rw [hs]; exact List.mem_cons_self))
  · rw [isNameChar, isNameStart_of_isAlpha (hl c hc), Bool.true_or]

/-! ## tags as characters -/

namespace Node

def attributeChars (a : String × String) : List Char :=
  ' ' :: (a.1.toList ++ '=' :: '"' :: (escapeList a.2.toList ++ ['"']))

def tag (name : String) (as : List (String × String)) : List Char :=
  name.toList ++ as.flatMap attributeChars

theorem toList_attributes (as : List (String × String)) :
    (attributes as).toList = as.flatMap attributeChars := by
  unfold attributes
  rw [String.toList_join, List.flatMap_map]
  congr 1
  funext a
  simp only [String.toList_append, escape, String.toList_ofList]
  simp [attributeChars]

theorem toList_opening (name : String) (as : List (String × String)) :
    (opening name as).toList = '<' :: (tag name as ++ ['>']) := by
  simp [opening, tag, toList_attributes]

theorem toList_single (name : String) (as : List (String × String)) :
    (single name as).toList = '<' :: (tag name as ++ ['/', '>']) := by
  simp [single, tag, toList_attributes]

theorem toList_closing (name : String) :
    (closing name).toList = '<' :: '/' :: (name.toList ++ ['>']) := by
  simp [closing]

/-- a tag that can be written: its names are words, and no attribute comes twice -/
def isSoundTag (name : String) (as : List (String × String)) : Bool :=
  isName name && as.all (fun a => isName a.1) && decide (as.map (·.1)).Nodup

theorem isSoundTag_iff {name : String} {as : List (String × String)} :
    isSoundTag name as = true ↔
      isName name = true ∧ (∀ a ∈ as, isName a.1 = true) ∧ (as.map (·.1)).Nodup := by
  rw [isSoundTag, Bool.and_eq_true, Bool.and_eq_true, List.all_eq_true, decide_eq_true_iff,
    and_assoc]

theorem isSoundTag_nil {name : String} (hname : isName name = true) :
    isSoundTag name [] = true :=
  isSoundTag_iff.2 ⟨hname, fun _ h => (List.not_mem_nil h).elim, List.nodup_nil⟩

theorem isSoundTag_single {name key : String} (hname : isName name = true)
    (hkey : isName key = true) (value : String) : isSoundTag name [(key, value)] = true := by
  refine isSoundTag_iff.2 ⟨hname, fun a ha => ?_, List.pairwise_singleton _ key⟩
  rw [List.mem_singleton.1 ha]
  exact hkey

/-- a text is written as one of its spellings, if every barred character has a name -/
theorem spelled_escapeList {barred : List Char} (hb : ∀ x ∈ barred, x ∈ entities.map Prod.snd)
    (cs : List Char) : TextSpelled barred cs (escapeList cs) := by
  induction cs with
  | nil => exact .nil
  | cons c cs ih =>
    rw [escapeList_cons]
    refine .cons ?_ ih
    rcases named_or_plain c with ⟨name, hn⟩ | hn
    · rw [escapeChar_of_mem hn]
      exact .entity hn
    · rw [escapeChar_of_not_mem hn]
      refine .plain fun hc => ?_
      obtain ⟨e, he, hec⟩ := List.mem_map.1 (hb c hc)
      exact hn e he hec

/-- the attributes are written as one of their spellings -/
theorem spelled_attributes (as : List (String × String)) :
    AttributesSpelled as (as.flatMap attributeChars) := by
  induction as with
  | nil => exact .nil (by decide)
  | cons a as ih =>
    have he : (a :: as).flatMap attributeChars =
        [' '] ++ (a.1.toList ++ ([] ++ '=' ::
          ([] ++ '"' :: (escapeList a.2.toList ++ '"' :: as.flatMap attributeChars)))) := by
      simp [attributeChars]
    rw [he]
    exact .cons (List.cons_ne_nil _ _) (by decide) (by decide) (by decide) (by decide)
      (spelled_escapeList (by simp [entities]) _) ih

end Node

end MachineSpec.Markup
