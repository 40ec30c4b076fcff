import MachineSpec.Markup.Layout
import MachineSpec.Proofs.Markup.Surface
import MachineSpec.Proofs.Markup.Tags

/-!
# Written trees read back

A tree is written tag by tag and read token by token, with the open elements on a stack.  Reading
what a node was written as gives the innermost open element one child more, whatever follows.

* `Node.isSound`                  every tag of a tree can be written
* `readFrom_lexemes`              a written node, read on any stack
* `Element.ofText_declaration`    a written tree is read as its element
-/

namespace MachineSpec.Markup

namespace Node

mutual

/-- every tag of the tree can be written -/
def isSound : Node → Bool
  | .lone name as => isSoundTag name as
  | .leaf name as _ => isSoundTag name as
  | .group name as children => isSoundTag name as && areSound children

def areSound : List Node → Bool
  | [] => true
  | n :: ns => isSound n && areSound ns

end

theorem isSound_group {name : String} {as : List (String × String)} {ns : List Node} :
    isSound (.group name as ns) = true ↔ isSoundTag name as = true ∧ areSound ns = true := by
  rw [isSound, Bool.and_eq_true]

theorem areSound_cons {n : Node} {ns : List Node} :
    areSound (n :: ns) = true ↔ isSound n = true ∧ areSound ns = true := by
  rw [areSound, Bool.and_eq_true]

def chars (n : Node) : List Char := n.lexemes.flatMap String.toList

def childChars (ns : List Node) : List Char := (childLexemes ns).flatMap String.toList

theorem toList_print (n : Node) : n.print.toList = n.chars := by
  rw [print, String.toList_join, chars]

theorem chars_leaf (name : String) (as : List (String × String)) (text : String) :
    chars (.leaf name as text) =
      (opening name as).toList ++ (escapeList text.toList ++ (closing name).toList) := by
  simp [chars, lexemes, escape]

theorem chars_group (name : String) (as : List (String × String)) (ns : List Node) :
    chars (.group name as ns) =
      (opening name as).toList ++ (childChars ns ++ (closing name).toList) := by
  simp [chars, lexemes, childChars]

theorem childChars_cons (n : Node) (ns : List Node) :
    childChars (n :: ns) = n.chars ++ childChars ns := by
  simp [childChars, childLexemes, chars]

theorem childChars_append (ns ms : List Node) :
    childChars (ns ++ ms) = childChars ns ++ childChars ms := by
  induction ns with
  | nil => rfl
  | cons n ns ih =>
    rw [List.cons_append, childChars_cons, ih, childChars_cons, List.append_assoc]

/-- a node starts with a tag -/
theorem exists_chars (n : Node) : ∃ cs, n.chars = '<' :: cs := by
  cases n with
  | lone name as => exact ⟨tag name as ++ ['/', '>'], by simp [chars, lexemes, toList_single]⟩
  | leaf name as text => exact ⟨_, by rw [chars_leaf, toList_opening]; rfl⟩
  | group name as ns => exact ⟨_, by rw [chars_group, toList_opening]; rfl⟩

end Node

open Node

namespace Element

/-! ## tags and texts -/

section tags
variable {name : String} {as : List (String × String)}

theorem readFrom_opening (h : isSoundTag name as = true) (stack : List Element) (r : List Char) :
    readFrom stack ((opening name as).toList ++ r) = readFrom (.mk name as "" [] :: stack) r := by
  obtain ⟨hn, ha, hd⟩ := isSoundTag_iff.1 h
  have he : (opening name as).toList ++ r =
      '<' :: (name.toList ++ (as.flatMap attributeChars ++ '>' :: r)) := by
    rw [toList_opening, tag]
    simp
  rw [he]
  exact readFrom_spelledOpening (isXmlName_of_isName hn) (fun a h => isXmlName_of_isName (ha a h))
    hd (spelled_attributes as) stack r

theorem readFrom_single (h : isSoundTag name as = true) (stack : List Element) (r : List Char) :
    readFrom stack ((single name as).toList ++ r) =
      (Progress.close (.mk name as "" []) stack).readOn r := by
  obtain ⟨hn, ha, hd⟩ := isSoundTag_iff.1 h
  have he : (single name as).toList ++ r =
      '<' :: (name.toList ++ (as.flatMap attributeChars ++ '/' :: '>' :: r)) := by
    rw [toList_single, tag]
    simp
  rw [he]
  exact readFrom_spelledSingle (isXmlName_of_isName hn) (fun a h => isXmlName_of_isName (ha a h))
    hd (spelled_attributes as) stack r

theorem readFrom_closing (h : isName name = true) (as : List (String × String))
    (text : String) (es stack : List Element) (r : List Char) :
    readFrom (.mk name as text es :: stack) ((closing name).toList ++ r) =
      (Progress.close (.mk name as text es) stack).readOn r := by
  have he : (closing name).toList ++ r = '<' :: '/' :: (name.toList ++ ([] ++ '>' :: r)) := by
    rw [toList_closing]
    simp
  rw [he]
  exact readFrom_spelledClosing (isXmlName_of_isName h) (by decide) text es stack r

/-- a text belongs to the innermost element, also if it is empty and no token -/
theorem readFrom_text (name : String) (as : List (String × String)) (text : String)
    (stack : List Element) (r : List Char) :
    readFrom (.mk name as "" [] :: stack) (escapeList text.toList ++ '<' :: r) =
      readFrom (.mk name as text [] :: stack) ('<' :: r) := by
  have htext : TextSpelled ['<', '&'] text.toList (escapeList text.toList) :=
    spelled_escapeList (by simp [entities]) _
  rw [readFrom_pending htext ⟨r, rfl⟩, String.empty_append, String.ofList_toList]

end tags

/-! ## trees -/

mutual

/-- a written node is one complete element more, whatever is open and whatever follows -/
theorem readFrom_lexemes (n : Node) (h : n.isSound = true) (stack : List Element)
    (r : List Char) :
    readFrom stack (n.chars ++ r) = (Progress.close n.toElement stack).readOn r := by
  match n with
  | .lone name as =>
    have hc : chars (.lone name as) = (single name as).toList := by simp [chars, lexemes]
    rw [hc]
    exact readFrom_single h stack r
  | .leaf name as text =>
    obtain ⟨c, hc⟩ : ∃ c, (closing name).toList ++ r = '<' :: c := by
      rw [toList_closing]
      exact ⟨_, rfl⟩
    rw [chars_leaf, List.append_assoc, List.append_assoc, readFrom_opening h, hc, readFrom_text,
      ← hc, readFrom_closing (isSoundTag_iff.1 h).1]
    rfl
  | .group name as ns =>
    obtain ⟨h, hs⟩ := isSound_group.1 h
    rw [chars_group, List.append_assoc, List.append_assoc, readFrom_opening h,
      readFrom_childLexemes ns hs, readFrom_closing (isSoundTag_iff.1 h).1]
    rfl

theorem readFrom_childLexemes (ns : List Node) (h : areSound ns = true) (name : String)
    (as : List (String × String)) (text : String) (es stack : List Element) (r : List Char) :
    readFrom (.mk name as text es :: stack) (childChars ns ++ r) =
      readFrom (.mk name as text (es ++ childElements ns) :: stack) r := by
  match ns with
  | [] =>
    rw [childElements, List.append_nil]
    rfl
  | n :: ns =>
    obtain ⟨hn, hs⟩ := areSound_cons.1 h
    rw [childChars_cons, List.append_assoc, readFrom_lexemes n hn]
    show readFrom (.mk name as text (es ++ [n.toElement]) :: stack) (childChars ns ++ r) = _
    rw [readFrom_childLexemes ns hs, List.append_assoc]
    rfl

end

/-- the declaration in front of a tree is passed over, with the end of its line -/
theorem readFrom_declaration (cs : List Char) :
    readFrom [] (declaration.toList ++ '<' :: cs) = readFrom [] ('<' :: cs) := by
  have hd : Token.next (declaration.toList ++ '<' :: cs) = .ok (.skipped, '\n' :: '<' :: cs) := rfl
  have hl : Token.next ('\n' :: '<' :: cs) = .ok (.text ['\n'], '<' :: cs) :=
    @Token.next_text ['\n'] (by decide) (by decide) cs
  have ht : Progress.take [] (.text ['\n']) = .ok (.inside []) := by
    rw [Progress.take, show ['\n'] = escapeList ['\n'] from rfl, unescape_escapeList]
    rfl
  rw [readFrom_of_next hd rfl]
  exact readFrom_of_next hl ht

/-- a written tree is read as its element -/
theorem ofText_declaration {n : Node} (h : n.isSound = true) :
    ofText (declaration ++ n.print).toList = .ok n.toElement := by
  have hu : ∀ cs, unmarked (declaration.toList ++ cs) = declaration.toList ++ cs := fun _ => rfl
  obtain ⟨c, hc⟩ := exists_chars n
  rw [ofText, String.toList_append, toList_print, hu, hc, readFrom_declaration, ← hc,
    ← List.append_nil n.chars, readFrom_lexemes n h]
  rfl

end Element

end MachineSpec.Markup
