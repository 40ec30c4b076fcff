import MachineSpec.Proofs.Markup.Spelling

/-!
# Tokens of spelled pieces

A spelled tag, a literal text, a comment and an instruction is one token each, whatever follows it.
A construct ends with the first of the words that end one, and none of them can stand in it.

* `Token.next_spelledOpening`, `next_spelledSingle`, `next_spelledClosing`   the tokens of tags
* `Token.next_run`        the token of a text
* `Token.splitAt?_first`  a word is found where it first stands
* `Token.next_spelledLiteral`, `next_aside`   the tokens that end with a word
-/

namespace MachineSpec.Markup.Token

/-! ## one sort of token each -/

section sorts
variable {r a b : List Char}

theorem declaration_literal (h : literal? r = some (a, b)) :
    declaration ('[' :: r) = .ok (.literal a, b) := by
  unfold declaration
  simp only [h]

theorem declaration_comment
    (h : (behind? "-".toList r).bind (splitAt? "-->".toList) = some (a, b)) :
    declaration ('-' :: r) = .ok (.skipped, b) := by
  unfold declaration
  simp only [h]

theorem declaration_doctype {c : Char} (hc : c = 'D' ∨ c = 'd')
    (h : (behind? "OCTYPE".toList r).bind (doctype? 0) = some (a, b)) (ha : ¬a.all isSpace = true) :
    declaration (c :: r) = .ok (.skipped, b.drop 1) := by
  unfold declaration
  split
  · next heq => cases heq; exact absurd hc (by decide)
  · next heq => cases heq; exact absurd hc (by decide)
  · next heq =>
    cases heq
    rw [if_pos hc, h]
    exact if_neg ha
  · next heq => cases heq

theorem markup_instruction {t : Token} (h : instruction? r = some (t, b)) :
    markup ('?' :: r) = .ok (t, b) := by
  unfold markup
  simp only [h, Option.elim_some]

theorem markup_closing (h : inside? none r = some (a, b)) :
    markup ('/' :: r) = .ok (.closing (closingName a), b) := by
  unfold markup
  simp only [h]

theorem markup_tag {c : Char} (hc : c ∉ ['!', '?', '/'])
    (h : inside? none (c :: r) = some (a, b)) : markup (c :: r) = .ok (ofTag a, b) := by
  unfold markup
  split
  · next heq => cases heq
  · next heq => cases heq; exact absurd (by decide) hc
  · next heq => cases heq; exact absurd (by decide) hc
  · next heq => cases heq; exact absurd (by decide) hc
  · simp only [h]

theorem next_markup {t : Token} (h : markup r = .ok (t, b)) : next ('<' :: r) = .ok (t, b) := by
  unfold next
  simp only [h]

end sorts

/-! ## tags -/

theorem ofTag_slash (tag : List Char) : ofTag (tag ++ ['/']) = .single tag := by
  unfold ofTag
  rw [List.reverse_append]
  show Token.single tag.reverse.reverse = _
  rw [List.reverse_reverse]

theorem ofTag_of_last {tag : List Char} (h : tag.getLast? ≠ some '/') :
    ofTag tag = .opening tag := by
  unfold ofTag
  split
  · next r heq => exact absurd (by rw [List.getLast?_eq_head?_reverse, heq]; rfl) h
  · rfl

section tags
variable {name : String} {as : List (String × String)} {tag : List Char}

theorem next_spelledTag (hname : IsXmlName name) (hn : ∀ a ∈ as, IsXmlName a.1)
    (h : AttributesSpelled as tag) {r a b : List Char} (hr : inside? none r = some (a, b)) :
    next ('<' :: (name.toList ++ (tag ++ r))) = .ok (ofTag (name.toList ++ (tag ++ a)), b) := by
  have hi : inside? none (name.toList ++ (tag ++ r)) = some (name.toList ++ (tag ++ a), b) := by
    rw [inside?_name hname, h.inside?_eq hn, hr]
    rfl
  obtain ⟨c, w, hs⟩ := hname.exists_cons
  have hc : isNameChar c = true := hname.isNameChar c (by rw [hs]; exact List.mem_cons_self)
  have hsort : c ∉ ['!', '?', '/'] := by
    simp only [List.mem_cons, List.not_mem_nil, or_false, not_or]
    exact ⟨ne_of_isNameChar hc (by decide), ne_of_isNameChar hc (by decide),
      ne_of_isNameChar hc (by decide)⟩
  rw [hs, List.cons_append] at hi ⊢
  exact next_markup (markup_tag hsort hi)

theorem next_spelledOpening (hname : IsXmlName name) (hn : ∀ a ∈ as, IsXmlName a.1)
    (h : AttributesSpelled as tag) (r : List Char) :
    next ('<' :: (name.toList ++ (tag ++ '>' :: r))) = .ok (.opening (name.toList ++ tag), r) := by
  have hr : inside? none ('>' :: r) = some ([], r) := rfl
  have hlast : (name.toList ++ tag).getLast? ≠ some '/' := by
    rw [List.getLast?_append]
    cases hl : tag.getLast? with
    | none =>
      intro h
      exact absurd (hname.isNameChar _ (List.mem_of_getLast? h)) (by decide)
    | some c => exact fun hc => h.getLast?_ne (hl.trans hc)
  rw [next_spelledTag hname hn h hr, List.append_nil, ofTag_of_last hlast]

theorem next_spelledSingle (hname : IsXmlName name) (hn : ∀ a ∈ as, IsXmlName a.1)
    (h : AttributesSpelled as tag) (r : List Char) :
    next ('<' :: (name.toList ++ (tag ++ '/' :: '>' :: r))) =
      .ok (.single (name.toList ++ tag), r) := by
  have hr : inside? none ('/' :: '>' :: r) = some (['/'], r) := rfl
  rw [next_spelledTag hname hn h hr, ← List.append_assoc, ofTag_slash]

theorem closingName_blanks (hname : IsXmlName name) {ws : List Char} (h : Blanks ws) :
    closingName (name.toList ++ ws) = name.toList := by
  have hws : ∀ c ∈ ws.reverse, isSpace c = true := fun c hc =>
    isSpace_of_blanks h c (List.mem_reverse.1 hc)
  have hstop : Text.Stops isSpace name.toList.reverse := fun c hc =>
    isSpace_of_isNameChar (hname.isNameChar c (List.mem_reverse.1 (List.mem_of_mem_head? hc)))
  obtain ⟨c, w, hs⟩ := hname.exists_cons
  unfold closingName
  rw [List.reverse_append, Text.dropWhile_run hws hstop, List.reverse_reverse, hs]
  rfl

theorem next_spelledClosing (hname : IsXmlName name) {ws : List Char} (h : Blanks ws)
    (r : List Char) :
    next ('<' :: '/' :: (name.toList ++ (ws ++ '>' :: r))) = .ok (.closing name.toList, r) := by
  have hi : inside? none (name.toList ++ (ws ++ '>' :: r)) = some (name.toList ++ ws, r) := by
    rw [inside?_name hname, inside?_blanks h]
    show some (name.toList ++ (ws ++ []), r) = _
    rw [List.append_nil]
  have hclosing := markup_closing hi
  rw [closingName_blanks hname h] at hclosing
  exact next_markup hclosing

end tags

/-! ## texts -/

/-- a text goes on to the next tag, or to the end -/
theorem next_run {cs r : List Char} (h : '<' ∉ cs) (hne : cs ≠ [])
    (hr : Text.Stops (fun c => decide (c ≠ '<')) r) : next (cs ++ r) = .ok (.text cs, r) := by
  have hp : ∀ x ∈ cs, (fun c => decide (c ≠ '<')) x = true := fun x hx =>
    decide_eq_true fun he => h (he ▸ hx)
  unfold next
  split
  · next heq => exact absurd (List.append_eq_nil_iff.1 heq).1 hne
  · next heq =>
    cases cs with
    | nil => exact absurd rfl hne
    | cons c cs =>
      injection heq with hc _
      exact absurd (by rw [hc]; exact List.mem_cons_self) h
  · rw [Text.takeWhile_run hp hr, Text.dropWhile_run hp hr]

theorem next_text {cs : List Char} (h : '<' ∉ cs) (hne : cs ≠ []) (r : List Char) :
    next (cs ++ '<' :: r) = .ok (.text cs, '<' :: r) := next_run h hne (Text.stops_cons rfl)

/-! ## words that end a token -/

/-- a word ends in a character of its own, so no two places of it overlap -/
theorem infix_of_prefix_append {w cs r : List Char} {z : Char} (hz : z ∉ w) (hne : cs ≠ [])
    (h : w ++ [z] <+: cs ++ (w ++ z :: r)) : w ++ [z] <:+: cs := by
  obtain ⟨t, ht⟩ := h
  rcases List.append_eq_append_iff.1 ht with ⟨a, hcs, -⟩ | ⟨a, hw, ha⟩
  · exact ⟨[], a, by rw [List.nil_append, hcs]⟩
  rcases List.eq_nil_or_concat a with rfl | ⟨a, x, rfl⟩
  · exact ⟨[], [], by rw [hw, List.append_nil, List.nil_append, List.append_nil]⟩
  rw [List.concat_eq_append, ← List.append_assoc] at hw
  obtain ⟨hw, hx⟩ := List.append_inj' hw rfl
  -- the word then goes on into itself, and its last character stands further in front
  have hat : w ++ z :: r = a ++ z :: t := by
    rw [ha, List.concat_eq_append, ← hx, List.append_assoc]
    rfl
  rcases List.append_eq_append_iff.1 hat with ⟨b, hab, -⟩ | ⟨b, hwb, hb⟩
  · have := congrArg List.length hw
    have := congrArg List.length hab
    have := List.length_pos_iff.2 hne
    simp only [List.length_append] at *
    omega
  · cases b with
    | nil =>
      have := congrArg List.length hw
      have := congrArg List.length hwb
      have := List.length_pos_iff.2 hne
      simp only [List.length_append, List.length_nil] at *
      omega
    | cons y b =>
      have hy : z = y := (List.cons.inj hb).1
      exact absurd (by rw [hwb, hy]; simp) hz

theorem splitAt?_append {word : List Char} (h : word ≠ []) (r : List Char) :
    splitAt? word (word ++ r) = some ([], r) := by
  cases word with
  | nil => exact absurd rfl h
  | cons c word =>
    have hp : (c :: word).isPrefixOf (c :: (word ++ r)) = true :=
      List.isPrefixOf_iff_prefix.2 ⟨r, rfl⟩
    rw [List.cons_append, splitAt?, if_pos hp, ← List.cons_append, List.drop_left]

/-- a word that ends in a character of its own is found where it first stands -/
theorem splitAt?_first {w cs : List Char} {z : Char} (hz : z ∉ w) (h : ¬w ++ [z] <:+: cs)
    (r : List Char) : splitAt? (w ++ [z]) (cs ++ (w ++ z :: r)) = some (cs, r) := by
  induction cs with
  | nil =>
    have he : [] ++ (w ++ z :: r) = (w ++ [z]) ++ r := by simp
    rw [he, splitAt?_append (by simp)]
  | cons c cs ih =>
    have hp : ¬(w ++ [z]).isPrefixOf (c :: (cs ++ (w ++ z :: r))) = true := fun hp =>
      h (infix_of_prefix_append hz (List.cons_ne_nil c cs) (List.isPrefixOf_iff_prefix.1 hp))
    rw [List.cons_append, splitAt?, if_neg hp,
      ih fun hi => h (hi.trans (List.suffix_cons c cs).isInfix)]
    rfl

theorem splitAt?_of_notMem {w cs : List Char} {z : Char} (hz : z ∉ w) (h : z ∉ cs) (r : List Char) :
    splitAt? (w ++ [z]) (cs ++ (w ++ z :: r)) = some (cs, r) :=
  splitAt?_first hz (fun hi => h (hi.subset (by simp))) r

theorem next_spelledLiteral {piece : List Char} (h : ¬"]]>".toList <:+: piece) (r : List Char) :
    next ("<![CDATA[".toList ++ (piece ++ ("]]>".toList ++ r))) = .ok (.literal piece, r) := by
  have hs : literal? ("CDATA[".toList ++ (piece ++ ("]]>".toList ++ r))) = some (piece, r) :=
    @splitAt?_first [']', ']'] piece '>' (by decide) h r
  exact next_markup (declaration_literal hs)

/-- comments and instructions mean nothing -/
theorem next_aside {cs : List Char} (h : Aside cs) (r : List Char) :
    next (cs ++ r) = .ok (.skipped, r) := by
  cases h with
  | @comment cs inside =>
    have hs : (behind? "-".toList ('-' :: (cs ++ ("-->".toList ++ r)))).bind
        (splitAt? "-->".toList) = some (cs, r) :=
      @splitAt?_of_notMem ['-', '-'] cs '>' (by decide) inside r
    rw [List.append_assoc, List.append_assoc]
    exact next_markup (declaration_comment hs)
  | @instruction cs inside =>
    have hs : splitAt? "?>".toList (cs ++ ("?>".toList ++ r)) = some (cs, r) :=
      @splitAt?_of_notMem ['?'] cs '>' (by decide) inside r
    have hi : instruction? (cs ++ ("?>".toList ++ r)) = some (.skipped, r) := by
      unfold instruction?
      split
      · next heq =>
        cases cs with
        | nil => cases heq
        | cons c cs =>
          obtain ⟨rfl, -⟩ := List.cons.inj heq
          exact absurd List.mem_cons_self inside
      · rw [hs]
        rfl
    rw [List.append_assoc, List.append_assoc]
    exact next_markup (markup_instruction hi)

end MachineSpec.Markup.Token
