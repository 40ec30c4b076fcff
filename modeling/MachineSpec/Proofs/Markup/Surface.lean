import MachineSpec.Markup.Grammar
import MachineSpec.Proofs.Markup.Tokens

/-!
# Every spelling of an element is read as the element

The elements that are open are kept on a stack.  A spelled element is one complete element more,
whatever is open around it and whatever follows it.  A text may be cut into pieces, so of the
innermost open element a text is always still to come: what was spelled of it so far and is no token
yet, because more of it may follow.

* `Progress.readOn`          reading on after a token
* `Element.readFrom_pending`   a text that is spelled in front of a tag
* `Element.readFrom_content`   what is in an element, behind a text that is still to come
* `Element.readFrom_spelled`   a spelled element
* `Element.ofText_spelled`     a text that is a spelled element
-/

namespace MachineSpec.Markup

/-! ## one token -/

/-- reading on after a token -/
def Progress.readOn (rest : List Char) : Progress → Except Failure Element
  | .inside stack => Element.readFrom stack rest
  | .finished root => .ok root

namespace Element

theorem readFrom_of_next {stack : List Element} {place rest : List Char} {t : Token} {p : Progress}
    (hn : Token.next place = .ok (t, rest)) (ht : Progress.take stack t = .ok p) :
    readFrom stack place = p.readOn rest := by
  rw [readFrom]
  split
  · next heq => rw [hn] at heq; cases heq
  · next heq =>
    rw [hn] at heq
    cases heq
    rw [ht]
    cases p <;> rfl

theorem readFrom_of_next_error {stack : List Element} {place : List Char} {f : Failure}
    (h : Token.next place = .error f) : readFrom stack place = .error f := by
  rw [readFrom]
  split
  · next heq =>
    rw [h] at heq
    cases heq
    rfl
  · next heq =>
    rw [h] at heq
    cases heq

/-- a token that cannot be taken is at fault where it starts -/
theorem readFrom_of_take_error {stack : List Element} {place rest : List Char} {t : Token}
    {cause : Cause} (hn : Token.next place = .ok (t, rest))
    (ht : Progress.take stack t = .error cause) :
    readFrom stack place = .error (.malformed cause place) := by
  rw [readFrom]
  split
  · next heq =>
    rw [hn] at heq
    cases heq
  · next heq =>
    rw [hn] at heq
    cases heq
    rw [ht]

section tags
variable {name : String} {as : List (String × String)} {tag : List Char}

theorem readFrom_spelledOpening (hname : IsXmlName name) (hn : ∀ a ∈ as, IsXmlName a.1)
    (hd : (as.map (·.1)).Nodup) (h : AttributesSpelled as tag) (stack : List Element)
    (r : List Char) :
    readFrom stack ('<' :: (name.toList ++ (tag ++ '>' :: r))) =
      readFrom (.mk name as "" [] :: stack) r := by
  have ht : Progress.take stack (.opening (name.toList ++ tag)) =
      .ok (.inside (.mk name as "" [] :: stack)) := by
    rw [Progress.take, ofTag_spelled hname hn hd h]
    rfl
  exact readFrom_of_next (Token.next_spelledOpening hname hn h r) ht

theorem readFrom_spelledSingle (hname : IsXmlName name) (hn : ∀ a ∈ as, IsXmlName a.1)
    (hd : (as.map (·.1)).Nodup) (h : AttributesSpelled as tag) (stack : List Element)
    (r : List Char) :
    readFrom stack ('<' :: (name.toList ++ (tag ++ '/' :: '>' :: r))) =
      (Progress.close (.mk name as "" []) stack).readOn r := by
  have ht : Progress.take stack (.single (name.toList ++ tag)) =
      .ok (Progress.close (.mk name as "" []) stack) := by
    rw [Progress.take, ofTag_spelled hname hn hd h]
    rfl
  exact readFrom_of_next (Token.next_spelledSingle hname hn h r) ht

theorem readFrom_spelledClosing (hname : IsXmlName name) {ws : List Char} (h : Blanks ws)
    (text : String) (es stack : List Element) (r : List Char) :
    readFrom (.mk name as text es :: stack) ('<' :: '/' :: (name.toList ++ (ws ++ '>' :: r))) =
      (Progress.close (.mk name as text es) stack).readOn r := by
  have ht : Progress.take (.mk name as text es :: stack) (.closing name.toList) =
      .ok (Progress.close (.mk name as text es) stack) := by
    rw [Progress.take, String.ofList_toList,
      if_pos (show (mk name as text es).name = name from rfl)]
  exact readFrom_of_next (Token.next_spelledClosing hname h r) ht

theorem readFrom_aside {cs : List Char} (h : Aside cs) (stack : List Element) (r : List Char) :
    readFrom stack (cs ++ r) = readFrom stack r :=
  readFrom_of_next (Token.next_aside h r) rfl

end tags

/-! ## texts -/

section texts
variable {name : String} {as : List (String × String)} {text : String} {es stack : List Element}

theorem readFrom_spelledLiteral {piece : List Char} (h : ¬"]]>".toList <:+: piece)
    (r : List Char) :
    readFrom (.mk name as text es :: stack)
        ("<![CDATA[".toList ++ (piece ++ ("]]>".toList ++ r))) =
      readFrom (.mk name as (text ++ String.ofList piece) es :: stack) r :=
  readFrom_of_next (Token.next_spelledLiteral h r) rfl

/-- a text in front of a tag belongs to the innermost element, also if it is empty and no token -/
theorem readFrom_pending {u w : List Char} (h : TextSpelled ['<', '&'] u w) {r : List Char}
    (hr : ∃ a, r = '<' :: a) :
    readFrom (.mk name as text es :: stack) (w ++ r) =
      readFrom (.mk name as (text ++ String.ofList u) es :: stack) r := by
  obtain ⟨a, rfl⟩ := hr
  by_cases hne : w = []
  · have hu : u = [] := by
      cases h with
      | nil => rfl
      | cons char rest =>
        rw [(List.append_eq_nil_iff.1 hne).1] at char
        cases char
    rw [hne, hu, String.ofList_nil, String.append_empty, List.nil_append]
  · have ht : Progress.take (.mk name as text es :: stack) (.text w) =
        .ok (.inside (.mk name as (text ++ String.ofList u) es :: stack)) := by
      rw [Progress.take, h.unescape_eq (by decide)]
      rfl
    exact readFrom_of_next (Token.next_text (h.notMem (by decide) (by decide)) hne a) ht

end texts

/-! ## trees -/

theorem Named.of_mk {name : String} {as : List (String × String)} {text : String}
    {es : List Element} (h : Named (.mk name as text es)) :
    IsXmlName name ∧ (∀ a ∈ as, IsXmlName a.1) ∧ ∀ e ∈ es, Named e := by
  cases h with
  | intro hname keys children => exact ⟨hname, keys, children⟩

theorem Distinct.of_mk {name : String} {as : List (String × String)} {text : String}
    {es : List Element} (h : Distinct (.mk name as text es)) :
    (as.map (·.1)).Nodup ∧ ∀ e ∈ es, Distinct e := by
  cases h with
  | intro keys children => exact ⟨keys, children⟩

theorem exists_cons_of_aside {cs : List Char} (h : Aside cs) (r : List Char) :
    ∃ a, cs ++ r = '<' :: a := by
  cases h with
  | comment => exact ⟨_, rfl⟩
  | instruction => exact ⟨_, rfl⟩

theorem exists_cons_of_spelled {e : Element} {cs : List Char} (h : ElementSpelled e cs)
    (r : List Char) : ∃ a, cs ++ r = '<' :: a := by
  cases h with
  | single => exact ⟨_, rfl⟩
  | around => exact ⟨_, rfl⟩

mutual

/-- a spelled element is one complete element more, whatever is open and whatever follows -/
theorem readFrom_spelled {e : Element} {cs : List Char} (h : ElementSpelled e cs) (hn : e.Named)
    (hd : e.Distinct) (stack : List Element) (r : List Char) :
    readFrom stack (cs ++ r) = (Progress.close e stack).readOn r := by
  match h with
  | @ElementSpelled.single name as tag attributes =>
    obtain ⟨hname, hkeys, -⟩ := hn.of_mk
    have hassoc : '<' :: (name.toList ++ (tag ++ ['/', '>'])) ++ r =
        '<' :: (name.toList ++ (tag ++ '/' :: '>' :: r)) := by simp
    rw [hassoc, readFrom_spelledSingle hname hkeys hd.of_mk.1 attributes]
  | @ElementSpelled.around name as tag text content ws es attributes inside blanks =>
    obtain ⟨hname, hkeys, hnamed⟩ := hn.of_mk
    obtain ⟨hnodup, hdistinct⟩ := hd.of_mk
    have hassoc : '<' :: (name.toList ++ (tag ++ '>' ::
          (content ++ '<' :: '/' :: (name.toList ++ (ws ++ ['>']))))) ++ r =
        '<' :: (name.toList ++ (tag ++ '>' ::
          ([] ++ (content ++ '<' :: '/' :: (name.toList ++ (ws ++ '>' :: r)))))) := by simp
    rw [hassoc, readFrom_spelledOpening hname hkeys hnodup attributes,
      readFrom_content inside hnamed hdistinct .nil, readFrom_spelledClosing hname blanks]
    simp

/-- what is in an element, behind a text that is still to come -/
theorem readFrom_content {text cs : List Char} {es : List Element}
    (h : ContentSpelled text es cs) (hn : ∀ e ∈ es, e.Named) (hd : ∀ e ∈ es, e.Distinct)
    {u w : List Char} (hw : TextSpelled ['<', '&'] u w) {name : String}
    {as : List (String × String)} {before : String} {elder stack : List Element} {r : List Char} :
    readFrom (.mk name as before elder :: stack) (w ++ (cs ++ '<' :: r)) =
      readFrom (.mk name as (before ++ String.ofList (u ++ text)) (elder ++ es) :: stack)
        ('<' :: r) := by
  match h with
  | .nil =>
    rw [List.nil_append, List.append_nil, List.append_nil]
    exact readFrom_pending hw ⟨r, rfl⟩
  | @ContentSpelled.escaped piece text cs rest es spelled others =>
    -- the piece is no token of its own: it goes on from the text in front of it
    have hassoc : w ++ ((cs ++ rest) ++ '<' :: r) = (w ++ cs) ++ (rest ++ '<' :: r) := by simp
    rw [hassoc, readFrom_content others hn hd (hw.append spelled), List.append_assoc]
  | @ContentSpelled.literal piece text rest es open_end others =>
    have hassoc : ("<![CDATA[".toList ++ (piece ++ ("]]>".toList ++ rest))) ++ '<' :: r =
        "<![CDATA[".toList ++ (piece ++ ("]]>".toList ++ ([] ++ (rest ++ '<' :: r)))) := by simp
    have hbracket : ∀ r, ∃ a, "<![CDATA[".toList ++ r = '<' :: a := fun _ => ⟨_, rfl⟩
    rw [hassoc, readFrom_pending hw (hbracket _), readFrom_spelledLiteral open_end,
      readFrom_content others hn hd .nil]
    simp [String.append_assoc]
  | @ContentSpelled.aside text cs rest es aside others =>
    have hassoc : (cs ++ rest) ++ '<' :: r = cs ++ ([] ++ (rest ++ '<' :: r)) := by simp
    rw [hassoc, readFrom_pending hw (exists_cons_of_aside aside _), readFrom_aside aside,
      readFrom_content others hn hd .nil]
    simp [String.append_assoc]
  | @ContentSpelled.child e text cs rest es spelled others =>
    obtain ⟨hne, hn⟩ := List.forall_mem_cons.1 hn
    obtain ⟨hde, hd⟩ := List.forall_mem_cons.1 hd
    have hassoc : (cs ++ rest) ++ '<' :: r = cs ++ ([] ++ (rest ++ '<' :: r)) := by simp
    rw [hassoc, readFrom_pending hw (exists_cons_of_spelled spelled _),
      readFrom_spelled spelled hne hde]
    show readFrom (.mk name as (before ++ String.ofList u) (elder ++ [e]) :: stack)
      ([] ++ (rest ++ '<' :: r)) = _
    rw [readFrom_content others hn hd .nil]
    simp [String.append_assoc]

end

/-- a text that is a spelled element holds that element -/
theorem ofText_spelled {e : Element} {cs : List Char} (hn : e.Named) (hd : e.Distinct)
    (h : ElementSpelled e cs) : ofText cs = .ok e := by
  obtain ⟨a, ha⟩ := exists_cons_of_spelled h []
  have hmark : unmarked (cs ++ []) = cs ++ [] := by
    rw [ha]
    rfl
  rw [List.append_nil] at hmark
  rw [ofText, hmark, ← List.append_nil cs, readFrom_spelled h hn hd]
  rfl

/-- quotes of both sorts, references of each sort, a literal text, a comment and an instruction
between the pieces of the text, a child that is a single tag, and blanks behind the name of the end
tag -/
theorem ofText_spelled_pieces :
    Named (.mk "Disk" [("key", "1<2"), ("by", "'")] "x&y<é" [.mk "Size" [] "" []]) ∧
      Distinct (.mk "Disk" [("key", "1<2"), ("by", "'")] "x&y<é" [.mk "Size" [] "" []]) ∧
      ElementSpelled (.mk "Disk" [("key", "1<2"), ("by", "'")] "x&y<é" [.mk "Size" [] "" []])
        ("<Disk\tkey = '1&lt;2' by=\"&#39;\">x&amp;<!-- c --><Size />y<![CDATA[<]]>" ++
          "<?p?>&#xE9;</Disk >").toList ∧
      ofText ("<Disk\tkey = '1&lt;2' by=\"&#39;\">x&amp;<!-- c --><Size />y<![CDATA[<]]>" ++
          "<?p?>&#xE9;</Disk >").toList =
        .ok (.mk "Disk" [("key", "1<2"), ("by", "'")] "x&y<é" [.mk "Size" [] "" []]) := by
  have hn : Named (.mk "Disk" [("key", "1<2"), ("by", "'")] "x&y<é" [.mk "Size" [] "" []]) :=
    .intro (by decide) (by decide)
      (List.forall_mem_singleton.2 (.intro (by decide) (by decide) nofun))
  have hd : Distinct (.mk "Disk" [("key", "1<2"), ("by", "'")] "x&y<é" [.mk "Size" [] "" []]) :=
    .intro (by decide) (List.forall_mem_singleton.2 (.intro (by decide) nofun))
  have hkey : TextSpelled ['<', '&', '\''] "1<2".toList
      (['1'] ++ ("&lt;".toList ++ (['2'] ++ []))) :=
    .cons (.plain (by decide)) (.cons (@CharSpelled.entity _ _ "lt" (by decide))
      (.cons (.plain (by decide)) .nil))
  have hby : TextSpelled ['<', '&', '"'] "'".toList ("&#39;".toList ++ []) :=
    .cons (@CharSpelled.decimal _ _ "39".toList (by decide) (by decide)) .nil
  have hattributes : AttributesSpelled [("key", "1<2"), ("by", "'")]
      "\tkey = '1&lt;2' by=\"&#39;\"".toList :=
    @AttributesSpelled.cons "key" "1<2" _ '\'' ['\t'] [' '] [' '] "1&lt;2".toList _ (by decide)
      (by decide) (by decide) (by decide) (by decide) hkey
      (@AttributesSpelled.cons "by" "'" _ '"' [' '] [] [] "&#39;".toList _ (by decide)
        (by decide) (by decide) (by decide) (by decide) hby (.nil (by decide)))
  have hpieces : TextSpelled ['<', '&'] "x&".toList (['x'] ++ ("&amp;".toList ++ [])) :=
    .cons (.plain (by decide)) (.cons (@CharSpelled.entity _ _ "amp" (by decide)) .nil)
  have hlast : TextSpelled ['<', '&'] "é".toList ("&#xE9;".toList ++ []) :=
    .cons (@CharSpelled.hexadecimal _ _ "E9".toList (by decide) (by decide)) .nil
  have hsize : ElementSpelled (.mk "Size" [] "" []) "<Size />".toList :=
    @ElementSpelled.single "Size" [] [' '] (.nil (by decide))
  have hcontent : ContentSpelled "x&y<é".toList [.mk "Size" [] "" []]
      "x&amp;<!-- c --><Size />y<![CDATA[<]]><?p?>&#xE9;".toList :=
    .escaped hpieces (.aside (@Aside.comment " c ".toList (by decide)) (.child hsize
      (.escaped (.plain (List.forall_mem_singleton.2 (by decide)) :
          TextSpelled ['<', '&'] ['y'] ['y'])
        (@ContentSpelled.literal ['<'] _ _ _ (by decide)
          (.aside (@Aside.instruction ['p'] (by decide)) (.escaped hlast .nil))))))
  have hspelled : ElementSpelled
      (.mk "Disk" [("key", "1<2"), ("by", "'")] "x&y<é" [.mk "Size" [] "" []])
      ("<Disk\tkey = '1&lt;2' by=\"&#39;\">x&amp;<!-- c --><Size />y<![CDATA[<]]>" ++
          "<?p?>&#xE9;</Disk >").toList :=
    @ElementSpelled.around "Disk" _ _ "x&y<é".toList _ [' '] _ hattributes hcontent (by decide)
  exact ⟨hn, hd, hspelled, ofText_spelled hn hd hspelled⟩

end Element

end MachineSpec.Markup
