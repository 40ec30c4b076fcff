import MachineSpec.Proofs.Markup.Exclusive
import MachineSpec.Proofs.Markup.Truncation
import MachineSpec.Proofs.RoundTrip

/-!
# What surrounds the root

A token ends where its own characters say, so what is added behind a text changes none of its tokens
but a text at its end, and reading stops at the root.  In front of the root nothing is open, so a
text there is only looked at for references.

* `Token.next_append`           a token, when something is added behind
* `Element.readFrom_append`     reading, when something is added behind
* `Element.readFrom_leading`    and when a text is added in front
* `Element.ofText_surrounded`   an element with anything behind it, and what may stand in front
* `Spec.decode_surrounded`      a specification
-/

namespace MachineSpec

namespace Markup

/-! ## behind a token -/

namespace Token

section append
variable {cs a b e : List Char}

theorem eq_of_splitAt? {word : List Char} (h : splitAt? word cs = some (a, b)) :
    cs = a ++ (word ++ b) := by
  induction cs generalizing a b with
  | nil =>
    rw [splitAt?] at h
    split at h
    · next hw =>
      cases h
      rw [List.isEmpty_iff.1 hw]
      rfl
    · cases h
  | cons c cs ih =>
    rw [splitAt?] at h
    split at h
    · next hp =>
      cases h
      exact (List.prefix_iff_eq_append.1 (List.isPrefixOf_iff_prefix.1 hp)).symm
    · obtain ⟨⟨a', b'⟩, hs, he⟩ := Option.map_eq_some_iff.1 h
      cases he
      rw [List.cons_append, ← ih hs]

theorem isPrefixOf_append {word : List Char} (h : word.isPrefixOf cs = true) :
    word.isPrefixOf (cs ++ e) = true :=
  List.isPrefixOf_iff_prefix.2 ((List.isPrefixOf_iff_prefix.1 h).trans (List.prefix_append cs e))

theorem length_le_of_isPrefixOf {word : List Char} (h : word.isPrefixOf cs = true) :
    word.length ≤ cs.length := (List.isPrefixOf_iff_prefix.1 h).length_le

theorem splitAt?_append_right {word : List Char} (h : splitAt? word cs = some (a, b)) :
    splitAt? word (cs ++ e) = some (a, b ++ e) := by
  induction cs generalizing a b with
  | nil =>
    rw [splitAt?] at h
    split at h
    · next hw =>
      cases h
      rw [List.isEmpty_iff.1 hw]
      cases e <;> rfl
    · cases h
  | cons c cs ih =>
    rw [splitAt?] at h
    rw [List.cons_append, splitAt?]
    split at h
    · next hp =>
      cases h
      have hp' : word.isPrefixOf (c :: (cs ++ e)) = true := isPrefixOf_append hp
      rw [if_pos hp', ← List.cons_append,
        List.drop_append_of_le_length (length_le_of_isPrefixOf hp)]
    · next hp =>
      obtain ⟨⟨a', b'⟩, hs, he⟩ := Option.map_eq_some_iff.1 h
      cases he
      -- the word is found further on, so what is added behind makes it no longer here
      have hle : word.length ≤ (c :: cs).length := by
        rw [eq_of_splitAt? hs]
        simp only [List.length_cons, List.length_append]
        omega
      have hp' : ¬word.isPrefixOf (c :: (cs ++ e)) = true := fun h =>
        hp (List.isPrefixOf_iff_prefix.2 (List.prefix_of_prefix_length_le
          (List.isPrefixOf_iff_prefix.1 h) (List.prefix_append (c :: cs) e) hle))
      rw [if_neg hp', ih hs]
      rfl

theorem behind?_append {word r : List Char} (h : behind? word cs = some r) :
    behind? word (cs ++ e) = some (r ++ e) := by
  induction word generalizing cs with
  | nil =>
    cases h
    rfl
  | cons w word ih =>
    cases cs with
    | nil => cases h
    | cons c cs =>
      rw [behind?] at h
      rw [List.cons_append, behind?]
      split at h
      · next hc => rw [if_pos hc, ih h]
      · cases h

theorem inside?_append {quote? : Option Char} (h : inside? quote? cs = some (a, b)) :
    inside? quote? (cs ++ e) = some (a, b ++ e) := by
  induction cs generalizing quote? a b with
  | nil => cases h
  | cons c cs ih =>
    rw [inside?.eq_def] at h
    rw [List.cons_append, inside?.eq_def]
    dsimp only at h ⊢
    split at h
    · obtain ⟨⟨a', b'⟩, hs, he⟩ := Option.map_eq_some_iff.1 h
      cases he
      rw [ih hs]
      rfl
    · split at h
      · next hc =>
        cases h
        rw [if_pos hc]
      · next hc =>
        obtain ⟨⟨a', b'⟩, hs, he⟩ := Option.map_eq_some_iff.1 h
        cases he
        rw [if_neg hc, ih hs]
        rfl

/-- a document type is followed by its last bracket -/
theorem doctype?_append {depth : Nat} (h : doctype? depth cs = some (a, b)) :
    doctype? depth (cs ++ e) = some (a, b ++ e) ∧ b ≠ [] := by
  induction cs generalizing depth a b with
  | nil => cases h
  | cons c cs ih =>
    rw [doctype?] at h
    rw [List.cons_append, doctype?]
    dsimp only at h ⊢
    split at h
    · next hc =>
      cases h
      rw [if_pos hc]
      exact ⟨rfl, List.cons_ne_nil c cs⟩
    · next hc =>
      obtain ⟨⟨a', b'⟩, hs, he⟩ := Option.map_eq_some_iff.1 h
      cases he
      rw [if_neg hc, (ih hs).1]
      exact ⟨rfl, (ih hs).2⟩

theorem literal?_append (h : literal? cs = some (a, b)) :
    literal? (cs ++ e) = some (a, b ++ e) := by
  unfold literal? at h ⊢
  dsimp only at h ⊢
  split at h
  · next hp =>
    rw [if_pos (isPrefixOf_append hp),
      List.drop_append_of_le_length (length_le_of_isPrefixOf hp), splitAt?_append_right h]
  · cases h

theorem declaration_append {t : Token} (h : declaration cs = .ok (t, b)) :
    declaration (cs ++ e) = .ok (t, b ++ e) := by
  unfold declaration at h
  split at h
  · split at h
    · next hs =>
      cases h
      exact declaration_literal (literal?_append hs)
    · cases h
  · next r =>
    split at h
    · next hs =>
      cases h
      obtain ⟨q, hq, hs⟩ := Option.bind_eq_some_iff.1 hs
      have hcomment := splitAt?_append_right hs (e := e)
      rw [← Option.bind_some (f := splitAt? "-->".toList), ← behind?_append hq] at hcomment
      exact declaration_comment hcomment
    · cases h
  · next c r _ _ =>
    split at h
    · next hc =>
      split at h
      · next hs =>
        obtain ⟨q, hq, hs⟩ := Option.bind_eq_some_iff.1 hs
        obtain ⟨hd, hne⟩ := @doctype?_append _ _ _ e _ hs
        split at h
        · cases h
        · next hall =>
          cases h
          rw [← List.drop_append_of_le_length (List.length_pos_iff.2 hne)]
          refine @declaration_doctype (r ++ e) _ _ c hc ?_ hall
          rw [behind?_append hq, Option.bind_some, hd]
      · cases h
    · cases h
  · cases h

theorem instruction?_append {t : Token} (h : instruction? cs = some (t, b)) :
    instruction? (cs ++ e) = some (t, b ++ e) := by
  cases cs with
  | nil => cases h
  | cons c cs =>
    unfold instruction? at h ⊢
    rw [List.cons_append]
    split at h
    · cases h
    · next hne =>
      obtain ⟨⟨a', b'⟩, hs, he⟩ := Option.map_eq_some_iff.1 h
      cases he
      split
      · next heq => exact absurd (List.cons.inj heq).1 fun hc => hne cs (by rw [hc])
      · rw [← List.cons_append, splitAt?_append_right hs]
        rfl

theorem markup_append {t : Token} (h : markup cs = .ok (t, b)) :
    markup (cs ++ e) = .ok (t, b ++ e) := by
  unfold markup at h
  split at h
  · cases h
  · exact declaration_append h
  · next q =>
    cases hi : instruction? q with
    | none =>
      rw [hi] at h
      cases h
    | some p =>
      rw [hi] at h
      cases h
      exact markup_instruction (instruction?_append hi)
  · split at h
    · next hi =>
      cases h
      exact markup_closing (inside?_append hi)
    · cases h
  · next hnil hbang hquestion hslash =>
    split at h
    · next hi =>
      cases h
      cases cs with
      | nil => exact absurd rfl hnil
      | cons c cs =>
        have hsort : c ∉ ['!', '?', '/'] := by
          simp only [List.mem_cons, List.not_mem_nil, or_false, not_or]
          exact ⟨fun hc => hbang cs (by rw [hc]), fun hc => hquestion cs (by rw [hc]),
            fun hc => hslash cs (by rw [hc])⟩
        exact markup_tag hsort (inside?_append hi)
    · cases h

end append

/-- a token stays as it is when something is added behind, unless it is a text at the end -/
theorem next_append {place rest : List Char} {t : Token} (h : next place = .ok (t, rest))
    (hend : rest = [] → ∀ cs, t ≠ .text cs) (e : List Char) :
    next (place ++ e) = .ok (t, rest ++ e) := by
  unfold next at h
  split at h
  · cases h
  · split at h
    · next hm =>
      cases h
      exact next_markup (markup_append hm)
    · cases h
  · next hnil hbracket =>
    cases h
    -- a bracket is behind the text, and it stays there
    obtain ⟨run, rest, rfl, hrun, hstops⟩ :=
      Text.exists_run (fun c : Char => decide (c ≠ '<')) place
    have htake : (run ++ rest).takeWhile (· ≠ '<') = run := Text.takeWhile_run hrun hstops
    have hdrop : (run ++ rest).dropWhile (· ≠ '<') = rest := Text.dropWhile_run hrun hstops
    rw [htake, hdrop] at hend ⊢
    cases rest with
    | nil => exact absurd rfl (hend rfl run)
    | cons c rest =>
      have hc : c = '<' := by simpa using hstops c rfl
      have hne : run ≠ [] := by
        rintro rfl
        exact hbracket rest (by rw [hc]; rfl)
      rw [hc, List.append_assoc, List.cons_append]
      exact next_text (fun hm => by simpa using hrun _ hm) hne _

end Token

/-! ## behind the root -/

namespace Element

theorem not_readFrom_nil (stack : List Element) (root : Element) :
    readFrom stack [] ≠ .ok root := by
  rw [readFrom]
  split
  · exact nofun
  · next heq => cases heq

/-- reading stops at the root, whatever is behind it -/
theorem readFrom_append {stack : List Element} {place : List Char} {root : Element}
    (h : readFrom stack place = .ok root) (e : List Char) :
    readFrom stack (place ++ e) = .ok root := by
  rw [readFrom] at h
  split at h
  · cases h
  · next t rest hnext =>
    split at h
    · cases h
    · next r htake =>
      cases h
      have hend : rest = [] → ∀ cs, t ≠ .text cs := by
        rintro - cs rfl
        cases hu : unescape cs <;> rw [Progress.take, hu] at htake <;> cases htake
      exact readFrom_of_next (Token.next_append hnext hend e) htake
    · next stack' htake =>
      have hend : rest = [] → ∀ cs, t ≠ .text cs := by
        rintro rfl
        exact absurd h (not_readFrom_nil stack' root)
      have := Token.length_lt_of_next hnext
      exact (readFrom_of_next (Token.next_append hnext hend e) htake).trans (readFrom_append h e)
termination_by place.length

/-! ## in front of the root -/

end Element

theorem named_of_named {start start' : Nat} {name : List Char} {c : Char}
    (h : named start name = .ok c) : named start' name = .ok c := by
  unfold named at h ⊢
  split at h
  · exact h
  · split at h
    · exact h
    · cases h

/-- whether a text can be read does not depend on where it stands -/
theorem unescapeFrom_of_unescapeFrom {start start' : Nat} {cs u : List Char}
    (h : unescapeFrom start cs = .ok u) : unescapeFrom start' cs = .ok u := by
  fun_induction unescapeFrom start cs generalizing start' u with
  | case1 start =>
    rw [unescapeFrom]
    exact h
  | case2 =>
    rename_i start r name t hstop ih
    obtain ⟨c, hc, h⟩ := exists_of_bind h
    obtain ⟨cs, hcs, h⟩ := exists_of_bind h
    have hr : r = name ++ ';' :: t := by
      rw [← hstop]
      exact List.takeWhile_append_dropWhile.symm
    have hname : ∀ x ∈ name, stops x = false := fun x hx => by
      simpa using List.all_eq_true.1 List.all_takeWhile x hx
    rw [hr, unescapeFrom_name hname]
    exact bind_ok (named_of_named hc) (bind_ok (ih hcs) h)
  | case3 start r hstop => cases h
  | case4 start c r hne ih =>
    obtain ⟨cs, hcs, h⟩ := exists_of_bind h
    rw [unescapeFrom_plain hne]
    exact bind_ok (ih hcs) h

/-- more text in front can be read too, if there is no reference in it -/
theorem exists_unescape_append {cs p : List Char} {s : String} (h : unescape cs = .ok s)
    (hp : '&' ∉ p) : ∃ s', unescape (p ++ cs) = .ok s' := by
  have hfrom : ∀ start, ∃ u, unescapeFrom start (p ++ cs) = .ok u := by
    induction p with
    | nil =>
      obtain ⟨u, hu, -⟩ := exists_of_bind h
      exact fun start => ⟨u, unescapeFrom_of_unescapeFrom hu⟩
    | cons c p ih =>
      intro start
      rw [List.mem_cons, not_or] at hp
      obtain ⟨u, hu⟩ := ih hp.2 (start + Utf8.size c)
      exact ⟨c :: u, (unescapeFrom_plain (Ne.symm hp.1) start (p ++ cs)).trans (bind_ok hu rfl)⟩
  obtain ⟨u, hu⟩ := hfrom 0
  unfold unescape
  rw [hu]
  exact ⟨_, rfl⟩

namespace Element

/-- where nothing is open, a text counts for nothing if its references can be read -/
theorem readFrom_nil_run {run rest : List Char} {root : Element} (hrun : '<' ∉ run)
    (hstops : Text.Stops (fun c => decide (c ≠ '<')) rest) :
    readFrom [] (run ++ rest) = .ok root ↔
      (∃ s, unescape run = .ok s) ∧ readFrom [] rest = .ok root := by
  by_cases hne : run = []
  · have hnil : unescape run = .ok "" := by
      rw [hne]
      exact unescape_escapeList []
    rw [hne, List.nil_append]
    exact ⟨fun h => ⟨⟨_, hne ▸ hnil⟩, h⟩, And.right⟩
  have hnext := Token.next_run hrun hne hstops
  cases hu : unescape run with
  | error cause =>
    have htake : Progress.take [] (.text run) = .error cause := by
      rw [Progress.take, hu]
      rfl
    obtain ⟨f, hf⟩ := fails_of_take hnext htake
    rw [hf]
    constructor
    · intro h
      cases h
    · rintro ⟨⟨s, hs⟩, -⟩
      cases hs
  | ok s =>
    have htake : Progress.take [] (.text run) = .ok (.inside []) := by
      rw [Progress.take, hu]
      rfl
    rw [readFrom_of_next hnext htake]
    exact ⟨fun h => ⟨⟨s, rfl⟩, h⟩, And.right⟩

/-- a text without references in front of what can be read -/
theorem readFrom_leading {cs place : List Char} {root : Element} (hbracket : '<' ∉ cs)
    (hreference : '&' ∉ cs) (h : readFrom [] place = .ok root) :
    readFrom [] (cs ++ place) = .ok root := by
  obtain ⟨run, rest, rfl, hrun, hstops⟩ := Text.exists_run (fun c : Char => decide (c ≠ '<')) place
  have hrun : '<' ∉ run := fun hm => by simpa using hrun _ hm
  obtain ⟨⟨s, hs⟩, hrest⟩ := (readFrom_nil_run hrun hstops).1 h
  rw [← List.append_assoc]
  refine (readFrom_nil_run ?_ hstops).2 ⟨exists_unescape_append hs hreference, hrest⟩
  rw [List.mem_append]
  exact fun hm => hm.elim hbracket hrun

theorem readFrom_preamble {p place : List Char} {root : Element} (hp : Preamble p)
    (h : readFrom [] place = .ok root) : readFrom [] (p ++ place) = .ok root := by
  induction hp with
  | nil => exact h
  | text bracket reference others ih =>
    rw [List.append_assoc]
    exact readFrom_leading bracket reference ih
  | aside aside others ih => rw [List.append_assoc, readFrom_aside aside, ih]

/-! ## marks -/

/-- a mark at the start can be read as a text too -/
theorem readFrom_of_unmarked {cs : List Char} {root : Element}
    (h : readFrom [] (unmarked cs) = .ok root) : readFrom [] cs = .ok root := by
  cases cs with
  | nil => exact h
  | cons c cs =>
    by_cases hc : c = byteOrderMark
    · have hu : unmarked (c :: cs) = cs := if_pos hc
      rw [hu] at h
      rw [hc]
      exact @readFrom_leading [byteOrderMark] cs root (by decide) (by decide) h
    · have hu : unmarked (c :: cs) = c :: cs := if_neg hc
      rwa [hu] at h

theorem unmarked_append {p : List Char} (hp : p ≠ []) (cs : List Char) :
    unmarked (p ++ cs) = unmarked p ++ cs := by
  cases p with
  | nil => exact absurd rfl hp
  | cons c p =>
    show (if c = byteOrderMark then p ++ cs else c :: (p ++ cs)) =
      (if c = byteOrderMark then p else c :: p) ++ cs
    split <;> rfl

theorem preamble_unmarked {p : List Char} (h : Preamble p) : Preamble (unmarked p) := by
  induction h with
  | nil => exact .nil
  | @text cs rest bracket reference others ih =>
    cases cs with
    | nil => exact ih
    | cons c cs =>
      rw [List.mem_cons, not_or] at bracket reference
      rw [unmarked_append (List.cons_ne_nil c cs)]
      show Preamble ((if c = byteOrderMark then cs else c :: cs) ++ rest)
      split
      · exact .text bracket.2 reference.2 others
      · exact .text (by simpa using bracket) (by simpa using reference) others
  | @aside cs rest aside others ih =>
    have hu : unmarked (cs ++ rest) = cs ++ rest := by
      obtain ⟨a, ha⟩ := exists_cons_of_aside aside rest
      rw [ha]
      rfl
    rw [hu]
    exact .aside aside others

/-- an element is found with anything behind it, and what may stand in front -/
theorem ofText_surrounded {p d : List Char} {root : Element} (hp : Preamble p)
    (h : ofText d = .ok root) (t : List Char) : ofText (p ++ (d ++ t)) = .ok root := by
  have hd := readFrom_of_unmarked h
  have hall : readFrom [] (unmarked (p ++ d)) = .ok root := by
    by_cases hne : p = []
    · rw [hne]
      exact h
    · rw [unmarked_append hne]
      exact readFrom_preamble (preamble_unmarked hp) hd
  have hne : p ++ d ≠ [] := by
    intro hnil
    rw [hnil] at hall
    exact not_readFrom_nil [] root hall
  rw [ofText, ← List.append_assoc, unmarked_append hne]
  exact readFrom_append hall t

end Element

end Markup

namespace Spec

open Markup
open Logged (outcome)

/-- a specification is found with anything behind its root, and what may stand in front -/
theorem decode_surrounded {p d : String} {s : Spec} (hp : Preamble p.toList)
    (h : outcome (decode .xml (Utf8.encode d)) = .ok s) (t : String) :
    outcome (decode .xml (Utf8.encode (p ++ d ++ t))) = .ok s := by
  obtain ⟨cs, root, hcs, hroot, hs⟩ := exists_of_decode_xml h
  rw [Utf8.decode?_encode] at hcs
  cases hcs
  refine outcome_decode_xml ?_
  unfold ofMarkup
  rw [String.toList_append, String.toList_append, List.append_assoc,
    Element.ofText_surrounded hp hroot]
  exact hs

/-- a document that starts with a mark and a reference, behind a declaration, a comment and a text,
and in front of an end tag that ends nothing and a literal text without an end -/
theorem decode_surrounded_malformed :
    Preamble "<?xml version=\"1.1\"?>\n<!--x-->]]>".toList ∧
      outcome (decode .xml (Utf8.encode
        "\uFEFF&amp;<VirtualMachineSpec><Name>a</Name></VirtualMachineSpec>")) =
        .ok { name := "a" } ∧
      outcome (decode .xml (Utf8.encode ("<?xml version=\"1.1\"?>\n<!--x-->]]>" ++
        "\uFEFF&amp;<VirtualMachineSpec><Name>a</Name></VirtualMachineSpec>" ++
        "</b><![CDATA["))) = .ok { name := "a" } := by
  let node : Node := .group "VirtualMachineSpec" [] [.leaf "Name" [] "a"]
  have hp : Preamble "<?xml version=\"1.1\"?>\n<!--x-->]]>".toList :=
    .aside (@Aside.instruction "xml version=\"1.1\"".toList (by decide))
      (@Preamble.text ['\n'] _ (by decide) (by decide)
        (.aside (@Aside.comment ['x'] (by decide))
          (@Preamble.text "]]>".toList _ (by decide) (by decide) .nil)))
  have hchars : "\uFEFF&amp;<VirtualMachineSpec><Name>a</Name></VirtualMachineSpec>".toList =
      Element.byteOrderMark :: (escapeList ['&'] ++ (node.chars ++ [])) := by decide
  have hroot : Element.readFrom [] (node.chars ++ []) = .ok node.toElement :=
    Element.readFrom_lexemes node (by decide) [] []
  have hd : outcome (decode .xml (Utf8.encode
      "\uFEFF&amp;<VirtualMachineSpec><Name>a</Name></VirtualMachineSpec>")) =
      .ok { name := "a" } := by
    refine outcome_decode_xml ?_
    have hstops : Text.Stops (fun c => decide (c ≠ '<')) (node.chars ++ []) := by
      obtain ⟨cs, hcs⟩ := node.exists_chars
      rw [hcs]
      exact Text.stops_cons rfl
    have htext : Element.ofText
        (Element.byteOrderMark :: (escapeList ['&'] ++ (node.chars ++ []))) =
        .ok node.toElement :=
      (Element.readFrom_nil_run (by decide) hstops).2 ⟨⟨_, unescape_escapeList ['&']⟩, hroot⟩
    unfold ofMarkup
    rw [hchars, htext]
    rfl
  exact ⟨hp, hd, decode_surrounded hp hd "</b><![CDATA["⟩

end Spec

end MachineSpec
