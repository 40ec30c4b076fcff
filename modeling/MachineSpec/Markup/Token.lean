import MachineSpec.Markup.Attribute

/-!
# Markup tokens

A markup text is a row of tokens: text, tags, literal text, and constructs that mean nothing here
(comments, instructions and document types).  Every token starts where the one before it ended.

* `Failure`      why a text has no element: it ends too early, or it is malformed at a place
* `Token`        a piece of a text
* `Token.next`   the token at a place, and what follows it
-/

namespace MachineSpec.Markup

/-- why a text has no element; a place is what follows in the text -/
inductive Failure where
  | ended
  | malformed (cause : Cause) (place : List Char)
  deriving DecidableEq, Repr

/-- a piece of a text; tags are kept without their brackets -/
inductive Token where
  | text (cs : List Char)
  | opening (tag : List Char)
  | single (tag : List Char)
  | closing (name : List Char)
  | literal (cs : List Char)
  | skipped
  deriving DecidableEq, Repr

namespace Token

def splitAt? (word : List Char) : List Char → Option (List Char × List Char)
  | [] => if word.isEmpty then some ([], []) else none
  | c :: cs =>
    if word.isPrefixOf (c :: cs) then some ([], (c :: cs).drop word.length)
    else (splitAt? word cs).map fun (a, b) => (c :: a, b)

def behind? : List Char → List Char → Option (List Char)
  | [], cs => some cs
  | _ :: _, [] => none
  | w :: ws, c :: cs => if c.toUpper = w then behind? ws cs else none

/-- the inside of a tag and what follows it; a bracket between quotes ends no tag -/
def inside? (quote? : Option Char) : List Char → Option (List Char × List Char)
  | [] => none
  | c :: cs =>
    match quote? with
    | some q =>
      (inside? (if c = q then none else some q) cs).map fun (a, b) => (c :: a, b)
    | none =>
      if c = '>' then some ([], cs)
      else
        (inside? (if c = '"' ∨ c = '\'' then some c else none) cs).map fun (a, b) => (c :: a, b)

/-- a document type, where brackets nest: what stands before its last bracket, and what stands from
there on -/
def doctype? (depth : Nat) : List Char → Option (List Char × List Char)
  | [] => none
  | c :: cs =>
    if c = '>' ∧ depth = 0 then some ([], c :: cs)
    else
      let depth := if c = '<' then depth + 1 else if c = '>' then depth - 1 else depth
      (doctype? depth cs).map fun (a, b) => (c :: a, b)

/-- the name in a closing tag, without the blanks behind it unless there is nothing else -/
def closingName (cs : List Char) : List Char :=
  let name := (cs.reverse.dropWhile isSpace).reverse
  if name.isEmpty then cs else name

def ofTag (tag : List Char) : Token :=
  match tag.reverse with
  | '/' :: r => .single r.reverse
  | _ => .opening tag

/-- literal text behind its opening bracket, and what follows it; its word is written in capitals -/
def literal? (cs : List Char) : Option (List Char × List Char) :=
  let word := "CDATA[".toList
  if word.isPrefixOf cs then splitAt? "]]>".toList (cs.drop word.length) else none

/-- the token behind `<!`, and what follows it -/
def declaration (cs : List Char) : Except (Cause × Option (List Char)) (Token × List Char) :=
  match cs with
  | '[' :: r =>
    match literal? r with
    | some (a, b) => .ok (.literal a, b)
    | none => .error (.unclosedLiteral, none)
  | '-' :: r =>
    match (behind? "-".toList r).bind (splitAt? "-->".toList) with
    | some (_, b) => .ok (.skipped, b)
    | none => .error (.unclosedComment, none)
  | c :: r =>
    if c = 'D' ∨ c = 'd' then
      match (behind? "OCTYPE".toList r).bind (doctype? 0) with
      | some (a, b) =>
        if a.all isSpace then .error (.doctypeWithoutName, some b) else .ok (.skipped, b.drop 1)
      | none => .error (.unclosedDoctype, none)
    else .error (.unknownMarkup, none)
  | [] => .error (.unknownMarkup, none)

def instruction? (cs : List Char) : Option (Token × List Char) :=
  match cs with
  | '>' :: _ => none
  | _ => (splitAt? "?>".toList cs).map fun (_, b) => (.skipped, b)

/-- the token behind `<`, and what follows it; a fault without a place is one of the token -/
def markup (cs : List Char) : Except (Cause × Option (List Char)) (Token × List Char) :=
  match cs with
  | [] => .error (.unclosedTag, none)
  | '!' :: r => declaration r
  | '?' :: r => (instruction? r).elim (.error (.unclosedInstruction, none)) .ok
  | '/' :: r =>
    match inside? none r with
    | some (a, b) => .ok (.closing (closingName a), b)
    | none => .error (.unclosedTag, none)
  | cs =>
    match inside? none cs with
    | some (a, b) => .ok (ofTag a, b)
    | none => .error (.unclosedTag, none)

def next (place : List Char) : Except Failure (Token × List Char) :=
  match place with
  | [] => .error .ended
  | '<' :: r =>
    match markup r with
    | .ok (t, r) => .ok (t, r)
    | .error (cause, p?) => .error (.malformed cause (p?.getD place))
  | cs => .ok (.text (cs.takeWhile (· ≠ '<')), cs.dropWhile (· ≠ '<'))

/-! ## progress -/

section progress
variable {cs a b r : List Char}

theorem suffix_of_splitAt? {word : List Char} (h : splitAt? word cs = some (a, b)) : b <:+ cs := by
  induction cs generalizing a b with
  | nil =>
    rw [splitAt?] at h
    split at h
    · cases h
      exact List.suffix_rfl
    · cases h
  | cons c cs ih =>
    rw [splitAt?] at h
    split at h
    · cases h
      exact List.drop_suffix _ _
    · obtain ⟨⟨a', b'⟩, hs, he⟩ := Option.map_eq_some_iff.1 h
      cases he
      exact (ih hs).trans (List.suffix_cons c cs)

theorem suffix_of_behind? {word : List Char} (h : behind? word cs = some r) : r <:+ cs := by
  induction word generalizing cs with
  | nil =>
    cases h
    exact List.suffix_rfl
  | cons w word ih =>
    cases cs with
    | nil => cases h
    | cons c cs =>
      rw [behind?] at h
      split at h
      · exact (ih h).trans (List.suffix_cons c cs)
      · cases h

theorem suffix_of_inside? {quote? : Option Char} (h : inside? quote? cs = some (a, b)) :
    b <:+ cs := by
  induction cs generalizing quote? a b with
  | nil => cases h
  | cons c cs ih =>
    rw [inside?.eq_def] at h
    dsimp only at h
    split at h
    · obtain ⟨⟨a', b'⟩, hs, he⟩ := Option.map_eq_some_iff.1 h
      cases he
      exact (ih hs).trans (List.suffix_cons c cs)
    · split at h
      · cases h
        exact List.suffix_cons c cs
      · obtain ⟨⟨a', b'⟩, hs, he⟩ := Option.map_eq_some_iff.1 h
        cases he
        exact (ih hs).trans (List.suffix_cons c cs)

theorem suffix_of_doctype? {depth : Nat} (h : doctype? depth cs = some (a, b)) : b <:+ cs := by
  induction cs generalizing depth a b with
  | nil => cases h
  | cons c cs ih =>
    rw [doctype?] at h
    dsimp only at h
    split at h
    · cases h
      exact List.suffix_rfl
    · obtain ⟨⟨a', b'⟩, hs, he⟩ := Option.map_eq_some_iff.1 h
      cases he
      exact (ih hs).trans (List.suffix_cons c cs)

theorem suffix_of_literal? (h : literal? cs = some (a, b)) : b <:+ cs := by
  unfold literal? at h
  dsimp only at h
  split at h
  · exact (suffix_of_splitAt? h).trans (List.drop_suffix _ _)
  · cases h

theorem suffix_of_instruction? {t : Token} (h : instruction? cs = some (t, b)) : b <:+ cs := by
  unfold instruction? at h
  split at h
  · cases h
  · obtain ⟨⟨a', b'⟩, hs, he⟩ := Option.map_eq_some_iff.1 h
    cases he
    exact suffix_of_splitAt? hs

end progress

/-- a token in `cs`, or the place of its fault if it has one, leaves an end of `cs` -/
def Within (cs : List Char) : Except (Cause × Option (List Char)) (Token × List Char) → Prop
  | .ok (_, r) => r <:+ cs
  | .error (_, place?) => ∀ place, place? = some place → place <:+ cs

theorem Within.cons {cs : List Char} {x : Except (Cause × Option (List Char)) (Token × List Char)}
    (h : Within cs x) (c : Char) : Within (c :: cs) x := by
  cases x with
  | ok p => exact List.IsSuffix.trans h (List.suffix_cons c cs)
  | error f => exact fun place hp => (h place hp).trans (List.suffix_cons c cs)

theorem within_declaration (cs : List Char) : Within cs (declaration cs) := by
  unfold declaration
  split
  · next r =>
    split
    · next a b hl => exact (suffix_of_literal? hl).trans (List.suffix_cons _ r)
    · exact nofun
  · next r =>
    split
    · next a b hs =>
      obtain ⟨q, hq, hs⟩ := Option.bind_eq_some_iff.1 hs
      exact ((suffix_of_splitAt? hs).trans (suffix_of_behind? hq)).trans (List.suffix_cons _ r)
    · exact nofun
  · next c r _ _ =>
    split
    · split
      · next a b hs =>
        obtain ⟨q, hq, hs⟩ := Option.bind_eq_some_iff.1 hs
        have hb : b <:+ c :: r :=
          ((suffix_of_doctype? hs).trans (suffix_of_behind? hq)).trans (List.suffix_cons c r)
        split
        · intro place hp
          cases hp
          exact hb
        · exact (List.drop_suffix 1 b).trans hb
      · exact nofun
    · exact nofun
  · exact nofun

theorem within_markup (cs : List Char) : Within cs (markup cs) := by
  unfold markup
  split
  · exact nofun
  · next r => exact (within_declaration r).cons _
  · next r =>
    cases hi : instruction? r with
    | none => exact nofun
    | some p => exact (suffix_of_instruction? hi).trans (List.suffix_cons _ r)
  · next r =>
    split
    · next a b hi => exact (suffix_of_inside? hi).trans (List.suffix_cons _ r)
    · exact nofun
  · split
    · next a b hi => exact suffix_of_inside? hi
    · exact nofun

/-- a token takes at least one character, and leaves what follows it -/
theorem exists_of_next {place r : List Char} {t : Token} (h : next place = .ok (t, r)) :
    ∃ c cs, place = c :: cs ∧ r <:+ cs := by
  unfold next at h
  split at h
  · cases h
  · next q =>
    have hw := within_markup q
    split at h
    · next hm =>
      rw [hm] at hw
      cases h
      exact ⟨_, q, rfl, hw⟩
    · cases h
  · next h1 h2 =>
    cases h
    cases place with
    | nil => exact absurd rfl h1
    | cons c cs =>
      have hc : c ≠ '<' := fun he => h2 cs (by rw [he])
      rw [List.dropWhile_cons_of_pos (by simpa using hc)]
      exact ⟨c, cs, rfl, List.dropWhile_suffix _⟩

theorem length_lt_of_next {place r : List Char} {t : Token} (h : next place = .ok (t, r)) :
    r.length < place.length := by
  obtain ⟨c, cs, rfl, hr⟩ := exists_of_next h
  exact Nat.lt_succ_of_le hr.length_le

/-- the place of a fault is where the text goes on from -/
theorem suffix_of_next_malformed {place q : List Char} {cause : Cause}
    (h : next place = .error (.malformed cause q)) : q <:+ place := by
  unfold next at h
  split at h
  · cases h
  · next r =>
    have hw := within_markup r
    split at h
    · cases h
    · next cause' p? hm =>
      rw [hm] at hw
      cases h
      cases p? with
      | none => exact List.suffix_rfl
      | some p => exact (hw p rfl).trans (List.suffix_cons _ r)
  · cases h

end Token

end MachineSpec.Markup
