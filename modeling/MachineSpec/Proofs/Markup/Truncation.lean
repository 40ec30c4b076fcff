import MachineSpec.Proofs.Markup.Trees

/-!
# Written trees cut short

A written tree without its end holds no element.  Where the cut is in a tag, no bracket closes the
tag and it is no token; where it is in a text, the text goes on to the end; and behind whole tags
and texts the text ends while an element is still open.

* `Text.Cut`                      a list without its end
* `Token.close_mem_of_markup`     what is between `<` and the end of a token holds a `>`
* `Element.Fails`                 no element is complete
* `Element.Pending`               a text that fails wherever it is cut
* `Element.pending_node`          a node cut short, whatever is open around it
* `Element.exists_of_ofText_cut`  a written tree cut short
-/

namespace MachineSpec

namespace Text
variable {α : Type} {q x y : List α} {c : α}

/-- `q` is what is left of `x` when something is cut off its end -/
def Cut (q x : List α) : Prop := ∃ r, r ≠ [] ∧ q ++ r = x

theorem not_cut_nil : ¬Cut q [] := by
  rintro ⟨r, hr, h⟩
  exact hr (List.append_eq_nil_iff.1 h).2

theorem mem_of_cut (h : Cut q x) (hc : c ∈ q) : c ∈ x := by
  obtain ⟨r, -, rfl⟩ := h
  exact List.mem_append_left r hc

theorem cut_cons {d : α} (h : Cut (c :: q) (d :: x)) : c = d ∧ Cut q x := by
  obtain ⟨r, hr, h⟩ := h
  obtain ⟨hc, h⟩ := List.cons.inj h
  exact ⟨hc, r, hr, h⟩

/-- the cut is in the first part or in the second one -/
theorem cut_append (h : Cut q (x ++ y)) : Cut q x ∨ ∃ q', q = x ++ q' ∧ Cut q' y := by
  obtain ⟨r, hr, h⟩ := h
  rcases List.append_eq_append_iff.1 h with ⟨a, hx, hy⟩ | ⟨a, hq, hy⟩
  · by_cases ha : a = []
    · rw [ha, List.append_nil] at hx
      rw [ha, List.nil_append] at hy
      exact .inr ⟨[], by rw [hx, List.append_nil], r, hr, hy⟩
    · exact .inl ⟨a, ha, hx.symm⟩
  · exact .inr ⟨a, hq, r, hr, hy.symm⟩

theorem eq_nil_of_cut_singleton (h : Cut q [c]) : q = [] := by
  cases q with
  | nil => rfl
  | cons d q => exact absurd (cut_cons h).2 not_cut_nil

/-- without its last element, a list is a front of what stands before that -/
theorem mem_of_cut_concat {d : α} (h : Cut q (x ++ [d])) (hc : c ∈ q) : c ∈ x := by
  rcases cut_append h with hx | ⟨q', rfl, hd⟩
  · exact mem_of_cut hx hc
  · rwa [eq_nil_of_cut_singleton hd, List.append_nil] at hc

end Text

namespace Markup

open Text Node

/-! ## tokens -/

namespace Token

theorem mem_of_splitAt? {word cs a b : List Char} (h : splitAt? word cs = some (a, b)) {c : Char}
    (hc : c ∈ word) : c ∈ cs := by
  induction cs generalizing a b with
  | nil =>
    rw [splitAt?] at h
    split at h
    · next hw =>
      rw [List.isEmpty_iff.1 hw] at hc
      exact hc
    · cases h
  | cons d cs ih =>
    rw [splitAt?] at h
    split at h
    · next hw => exact (List.isPrefixOf_iff_prefix.1 hw).subset hc
    · obtain ⟨⟨a', b'⟩, hs, -⟩ := Option.map_eq_some_iff.1 h
      exact List.mem_cons_of_mem d (ih hs)

theorem mem_of_behind? {word cs r : List Char} (h : behind? word cs = some r) {c : Char}
    (hc : c ∈ r) : c ∈ cs := by
  induction word generalizing cs with
  | nil =>
    cases h
    exact hc
  | cons w word ih =>
    cases cs with
    | nil => cases h
    | cons d cs =>
      rw [behind?] at h
      split at h
      · exact List.mem_cons_of_mem d (ih h)
      · cases h

theorem close_mem_of_inside? {quote? : Option Char} {cs a b : List Char}
    (h : inside? quote? cs = some (a, b)) : '>' ∈ cs := by
  induction cs generalizing quote? a b with
  | nil => cases h
  | cons c cs ih =>
    rw [inside?.eq_def] at h
    dsimp only at h
    split at h
    · obtain ⟨⟨a', b'⟩, hi, -⟩ := Option.map_eq_some_iff.1 h
      exact List.mem_cons_of_mem c (ih hi)
    split at h
    · next hc => exact hc ▸ List.mem_cons_self
    · obtain ⟨⟨a', b'⟩, hi, -⟩ := Option.map_eq_some_iff.1 h
      exact List.mem_cons_of_mem c (ih hi)

theorem close_mem_of_doctype? {depth : Nat} {cs a b : List Char}
    (h : doctype? depth cs = some (a, b)) : '>' ∈ cs := by
  induction cs generalizing depth a b with
  | nil => cases h
  | cons c cs ih =>
    rw [doctype?] at h
    split at h
    · next hc => exact hc.1 ▸ List.mem_cons_self
    · obtain ⟨⟨a', b'⟩, hi, -⟩ := Option.map_eq_some_iff.1 h
      exact List.mem_cons_of_mem c (ih hi)

theorem close_mem_of_declaration {cs r : List Char} {t : Token}
    (h : declaration cs = .ok (t, r)) : '>' ∈ cs := by
  unfold declaration at h
  split at h
  · split at h
    · next hs =>
      unfold literal? at hs
      dsimp only at hs
      split at hs
      · exact List.mem_cons_of_mem _ (List.mem_of_mem_drop (mem_of_splitAt? hs (by decide)))
      · cases hs
    · cases h
  · split at h
    · next hs =>
      obtain ⟨q, hq, hs⟩ := Option.bind_eq_some_iff.1 hs
      exact List.mem_cons_of_mem _ (mem_of_behind? hq (mem_of_splitAt? hs (by decide)))
    · cases h
  · split at h
    · split at h
      · next hs =>
        obtain ⟨q, hq, hs⟩ := Option.bind_eq_some_iff.1 hs
        exact List.mem_cons_of_mem _ (mem_of_behind? hq (close_mem_of_doctype? hs))
      · cases h
    · cases h
  · cases h

/-- every token that starts with a bracket has one that closes it -/
theorem close_mem_of_markup {cs r : List Char} {t : Token} (h : markup cs = .ok (t, r)) :
    '>' ∈ cs := by
  unfold markup at h
  split at h
  · cases h
  · exact List.mem_cons_of_mem _ (close_mem_of_declaration h)
  · next q =>
    cases hi : instruction? q with
    | none =>
      rw [hi] at h
      cases h
    | some p =>
      unfold instruction? at hi
      split at hi
      · exact List.mem_cons_of_mem _ List.mem_cons_self
      · obtain ⟨⟨a, b⟩, hs, -⟩ := Option.map_eq_some_iff.1 hi
        exact List.mem_cons_of_mem _ (mem_of_splitAt? hs (by decide))
  · split at h
    · next hi => exact List.mem_cons_of_mem _ (close_mem_of_inside? hi)
    · cases h
  · split at h
    · next hi => exact close_mem_of_inside? hi
    · cases h

theorem next_of_unclosed {r : List Char} (h : '>' ∉ r) : ∃ f, next ('<' :: r) = .error f := by
  cases hm : markup r with
  | ok p => exact absurd (close_mem_of_markup hm) h
  | error e =>
    refine ⟨.malformed e.1 (e.2.getD ('<' :: r)), ?_⟩
    unfold next
    simp only [hm]

end Token

/-! ## what is left of a tag or of a text -/

namespace Node

theorem close_notMem_name {name : String} (h : isName name = true) : '>' ∉ name.toList :=
  fun hm => letter_ne (isAlpha_of_isName h _ hm) (by decide)

theorem close_notMem_attributeChars {a : String × String} (h : isName a.1 = true) :
    '>' ∉ attributeChars a := by
  simp only [attributeChars, List.mem_cons, List.mem_append, List.not_mem_nil, or_false, not_or]
  exact ⟨by decide, close_notMem_name h, by decide, by decide,
    not_mem_escapeList _ (by decide), by decide⟩

theorem close_notMem_tag {name : String} {as : List (String × String)}
    (h : isSoundTag name as = true) : '>' ∉ tag name as := by
  obtain ⟨hn, ha, -⟩ := isSoundTag_iff.1 h
  simp only [tag, List.mem_append, List.mem_flatMap, not_or, not_exists, not_and]
  exact ⟨close_notMem_name hn, fun a hm => close_notMem_attributeChars (ha a hm)⟩

end Node

namespace Element

/-- the text ends before an element is complete, or is malformed -/
def Fails (stack : List Element) (place : List Char) : Prop :=
  ∃ f, readFrom stack place = .error f

/-- no element is complete before the end of the text -/
def Pending (stack : List Element) (x : List Char) : Prop := ∀ q, Cut q x → Fails stack q

section fails
variable {stack stack' : List Element} {place place' rest : List Char}

theorem fails_of_eq (h : readFrom stack place = readFrom stack' place')
    (hf : Fails stack' place') : Fails stack place := by
  obtain ⟨f, hf⟩ := hf
  exact ⟨f, h.trans hf⟩

theorem fails_of_next {f : Failure} (h : Token.next place = .error f) : Fails stack place :=
  ⟨f, readFrom_of_next_error h⟩

theorem fails_of_take {t : Token} {cause : Cause} (hn : Token.next place = .ok (t, rest))
    (ht : Progress.take stack t = .error cause) : Fails stack place :=
  ⟨.malformed cause place, readFrom_of_take_error hn ht⟩

theorem fails_nil (stack : List Element) : Fails stack [] := fails_of_next rfl

theorem fails_unclosed (stack : List Element) {r : List Char} (h : '>' ∉ r) :
    Fails stack ('<' :: r) := by
  obtain ⟨f, hf⟩ := Token.next_of_unclosed h
  exact fails_of_next hf

/-- behind a text that nothing follows, elements are open as before -/
theorem fails_text (stack : List Element) {cs : List Char} (h : '<' ∉ cs) : Fails stack cs := by
  by_cases hne : cs = []
  · rw [hne]
    exact fails_nil stack
  have hn : Token.next cs = .ok (.text cs, []) := by
    have hr := Token.next_run h hne Text.stops_nil
    rwa [List.append_nil] at hr
  cases hu : unescape cs with
  | error cause => exact fails_of_take hn (by rw [Progress.take, hu]; rfl)
  | ok s =>
    have ht : Progress.take stack (.text cs) = .ok (.inside (Progress.addText s stack)) := by
      rw [Progress.take, hu]
      rfl
    exact fails_of_eq (readFrom_of_next hn ht) (fails_nil _)

end fails

theorem pending_nil (stack : List Element) : Pending stack [] := fun _ h => absurd h not_cut_nil

/-- a text in two parts: none of the first one is enough, and neither is the first one with some of
the second one -/
theorem pending_append {stack stack' : List Element} {x y : List Char} (hx : Pending stack x)
    (hy : Pending stack' y) (h : ∀ q, Cut q y → Fails stack' q → Fails stack (x ++ q)) :
    Pending stack (x ++ y) := by
  intro q hq
  rcases cut_append hq with hq | ⟨q', rfl, hq'⟩
  · exact hx q hq
  · exact h q' hq' (hy q' hq')

theorem pending_tag (stack : List Element) {inner : List Char} (h : '>' ∉ inner) :
    Pending stack ('<' :: (inner ++ ['>'])) := by
  intro q hq
  cases q with
  | nil => exact fails_nil stack
  | cons c q =>
    obtain ⟨rfl, hq'⟩ := cut_cons hq
    exact fails_unclosed stack fun hm => h (mem_of_cut_concat hq' hm)

theorem pending_opening (stack : List Element) {name : String} {as : List (String × String)}
    (h : isSoundTag name as = true) : Pending stack (opening name as).toList := by
  rw [toList_opening]
  exact pending_tag stack (close_notMem_tag h)

theorem pending_closing (stack : List Element) {name : String} (h : isName name = true) :
    Pending stack (closing name).toList := by
  have hc : '>' ∉ '/' :: name.toList := fun hm =>
    (List.mem_cons.1 hm).elim (by decide) (close_notMem_name h)
  rw [toList_closing]
  exact pending_tag stack hc

theorem pending_text (stack : List Element) {cs : List Char} (h : '<' ∉ cs) : Pending stack cs :=
  fun _ hq => fails_text stack fun hm => h (mem_of_cut hq hm)

/-! ## trees -/

theorem pending_leaf {name : String} (h : isName name = true) (as : List (String × String))
    (text : String) (stack : List Element) :
    Pending (.mk name as "" [] :: stack) (escapeList text.toList ++ (closing name).toList) := by
  have htext : '<' ∉ escapeList text.toList := not_mem_escapeList _ (by decide)
  refine pending_append (pending_text _ htext)
    (pending_closing (.mk name as text [] :: stack) h) fun q hq hf => ?_
  cases q with
  | nil =>
    rw [List.append_nil]
    exact fails_text _ htext
  | cons c q =>
    rw [toList_closing] at hq
    obtain ⟨rfl, -⟩ := cut_cons hq
    exact fails_of_eq (readFrom_text name as text stack q) hf

mutual

/-- a node is not complete before its end, whatever is open around it -/
theorem pending_node (n : Node) (h : n.isSound = true) (stack : List Element) :
    Pending stack n.chars := by
  -- the elements that are open grow with each tag, so each part has its own stack
  match n with
  | .lone name as =>
    have hc : chars (.lone name as) = '<' :: ((tag name as ++ ['/']) ++ ['>']) := by
      simp [chars, lexemes, toList_single]
    have ht : '>' ∉ tag name as ++ ['/'] := fun hm =>
      (List.mem_append.1 hm).elim (close_notMem_tag h) (by decide)
    rw [hc]
    exact pending_tag stack ht
  | .leaf name as text =>
    rw [chars_leaf]
    exact pending_append (pending_opening stack h)
      (pending_leaf (isSoundTag_iff.1 h).1 as text stack)
      fun q _ => fails_of_eq (readFrom_opening h stack q)
  | .group name as ns =>
    obtain ⟨h, hs⟩ := isSound_group.1 h
    rw [chars_group]
    refine pending_append (pending_opening stack h) ?_
      fun q _ => fails_of_eq (readFrom_opening h stack q)
    exact pending_append (pending_children ns hs name as "" [] stack)
      (pending_closing _ (isSoundTag_iff.1 h).1)
      fun q _ => fails_of_eq (readFrom_childLexemes ns hs name as "" [] stack q)

theorem pending_children (ns : List Node) (h : areSound ns = true) (name : String)
    (as : List (String × String)) (text : String) (es stack : List Element) :
    Pending (.mk name as text es :: stack) (childChars ns) := by
  match ns with
  | [] => exact pending_nil _
  | n :: ns =>
    obtain ⟨hn, hs⟩ := areSound_cons.1 h
    rw [childChars_cons]
    exact pending_append (pending_node n hn _)
      (pending_children ns hs name as text (es ++ [n.toElement]) stack)
      fun q _ => fails_of_eq (readFrom_lexemes n hn _ q)

end

theorem pending_declaration : Pending [] declaration.toList := by
  have hd : declaration.toList =
      '<' :: ("?xml version=\"1.0\" encoding=\"UTF-8\"?".toList ++ ['>']) ++ ['\n'] := rfl
  have hn : Token.next
      ('<' :: ("?xml version=\"1.0\" encoding=\"UTF-8\"?".toList ++ ['>'])) =
      .ok (.skipped, []) := rfl
  rw [hd]
  refine pending_append (pending_tag [] (by decide)) (pending_text [] (by decide)) fun q hq hf => ?_
  rw [eq_nil_of_cut_singleton hq, List.append_nil]
  exact fails_of_eq (readFrom_of_next hn rfl) (fails_nil [])

/-- a declaration with nothing behind it -/
theorem fails_declaration : Fails [] declaration.toList := by
  have hn : Token.next declaration.toList = .ok (.skipped, ['\n']) := rfl
  exact fails_of_eq (readFrom_of_next hn rfl) (fails_text [] (by decide))

/-- a written tree cut short holds no element -/
theorem exists_of_ofText_cut {n : Node} (h : n.isSound = true) {q : List Char}
    (hq : Cut q (declaration ++ n.print).toList) : ∃ f, ofText q = .error f := by
  obtain ⟨cs, hcs⟩ := exists_chars n
  have hall : Pending [] (declaration.toList ++ n.chars) := by
    refine pending_append pending_declaration (pending_node n h []) fun q hq hf => ?_
    cases q with
    | nil =>
      rw [List.append_nil]
      exact fails_declaration
    | cons c q =>
      rw [hcs] at hq
      obtain ⟨rfl, -⟩ := cut_cons hq
      exact fails_of_eq (readFrom_declaration q) hf
  rw [String.toList_append, toList_print] at hq
  have hu : unmarked q = q := by
    have hd : declaration.toList = '<' :: declaration.toList.tail := rfl
    cases q with
    | nil => rfl
    | cons c q =>
      rw [hd] at hq
      obtain ⟨rfl, -⟩ := cut_cons hq
      rfl
  rw [ofText, hu]
  exact hall q hq

end Element

end Markup

end MachineSpec
