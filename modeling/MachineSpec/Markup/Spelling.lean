import MachineSpec.Markup.Element

/-!
# The spellings of elements

Which markup stands for an element, told without reading one.  An element has many spellings: white
space may stand between the parts of a tag, a character may be written as an entity or by its
number, a text may be cut into pieces, some of them literal, and comments and instructions may stand
anywhere between the pieces and the children.

* `IsXmlName`           the names that elements and attributes may have
* `Element.Named`       the element, its attributes and the elements in it have such names
* `TextSpelled`         the spellings of a text in which some characters may not stand as they are
* `AttributesSpelled`   the spellings of attributes, behind the name of their tag
* `Aside`               what means nothing: a comment or an instruction
* `ElementSpelled`, `ContentSpelled`   the spellings of an element, and of what is in it
* `Preamble`            what may stand in front of an element
-/

namespace MachineSpec.Markup

/-! ## names -/

/-- the characters that a name may start with, as ranges of their numbers -/
def nameStarts : List (Nat × Nat) := [
  (0x3A, 0x3A), (0x41, 0x5A), (0x5F, 0x5F), (0x61, 0x7A), (0xC0, 0xD6), (0xD8, 0xF6),
  (0xF8, 0x2FF), (0x370, 0x37D), (0x37F, 0x1FFF), (0x200C, 0x200D), (0x2070, 0x218F),
  (0x2C00, 0x2FEF), (0x3001, 0xD7FF), (0xF900, 0xFDCF), (0xFDF0, 0xFFFD), (0x10000, 0xEFFFF)]

/-- the characters that may only stand behind the first one -/
def nameFollowers : List (Nat × Nat) := [
  (0x2D, 0x2E), (0x30, 0x39), (0xB7, 0xB7), (0x300, 0x36F), (0x203F, 0x2040)]

def isWithin (ranges : List (Nat × Nat)) (c : Char) : Bool :=
  ranges.any fun r => r.1 ≤ c.toNat && c.toNat ≤ r.2

def isNameStart (c : Char) : Bool := isWithin nameStarts c

def isNameChar (c : Char) : Bool := isNameStart c || isWithin nameFollowers c

/-- the names that elements and attributes may have -/
def IsXmlName (s : String) : Prop :=
  s ≠ "" ∧ s.toList.head?.all isNameStart = true ∧ s.toList.all isNameChar = true

instance (s : String) : Decidable (IsXmlName s) :=
  inferInstanceAs (Decidable (_ ∧ _))

/-- the element, its attributes and the elements in it have names that they may have -/
inductive Element.Named : Element → Prop
  | intro {e : Element} (name : IsXmlName e.name) (keys : ∀ a ∈ e.attributes, IsXmlName a.1)
      (children : ∀ child ∈ e.children, Named child) : Named e

/-! ## texts -/

def Blanks (cs : List Char) : Prop := ∀ c ∈ cs, c ∈ [' ', '\t', '\r', '\n']

instance (cs : List Char) : Decidable (Blanks cs) := List.decidableBAll _ cs

/-- the spellings of a character: itself where it may stand as it is, an entity, or its number; the
character zero has no number -/
inductive CharSpelled (barred : List Char) (c : Char) : List Char → Prop
  | plain (bare : c ∉ barred) : CharSpelled barred c [c]
  | entity {name : String} (known : (name, c) ∈ entities) :
      CharSpelled barred c ('&' :: (name.toList ++ [';']))
  | decimal {ds : List Char} (some : c ≠ '\x00')
      (digits : Text.digitsFrom 10 0 ds = .some c.toNat) :
      CharSpelled barred c ('&' :: '#' :: (ds ++ [';']))
  | hexadecimal {ds : List Char} (some : c ≠ '\x00')
      (digits : Text.digitsFrom 16 0 ds = .some c.toNat) :
      CharSpelled barred c ('&' :: '#' :: 'x' :: (ds ++ [';']))

inductive TextSpelled (barred : List Char) : List Char → List Char → Prop
  | nil : TextSpelled barred [] []
  | cons {c : Char} {cs as bs : List Char} (char : CharSpelled barred c as)
      (rest : TextSpelled barred cs bs) : TextSpelled barred (c :: cs) (as ++ bs)

/-! ## tags -/

/-- the spellings of attributes: white space in front of each, and a value in quotes of either sort,
which do not stand in it; white space may also stand around the equals sign and behind the last
attribute -/
inductive AttributesSpelled : List (String × String) → List Char → Prop
  | nil {ws : List Char} (blanks : Blanks ws) : AttributesSpelled [] ws
  | cons {key value : String} {as : List (String × String)} {quote : Char}
      {ws before behind v rest : List Char} (apart : ws ≠ []) (blanks : Blanks ws)
      (blanks_before : Blanks before) (blanks_behind : Blanks behind)
      (quotes : quote ∈ ['"', '\'']) (spelled : TextSpelled ['<', '&', quote] value.toList v)
      (others : AttributesSpelled as rest) :
      AttributesSpelled ((key, value) :: as)
        (ws ++ (key.toList ++ (before ++ '=' :: (behind ++ quote :: (v ++ quote :: rest)))))

/-! ## elements -/

/-- a comment or an instruction, with no bracket but those around it -/
inductive Aside : List Char → Prop
  | comment {cs : List Char} (inside : '>' ∉ cs) : Aside ("<!--".toList ++ (cs ++ "-->".toList))
  | instruction {cs : List Char} (inside : '>' ∉ cs) : Aside ("<?".toList ++ (cs ++ "?>".toList))

mutual

/-- the spellings of an element; one with nothing in it may be a single tag -/
inductive ElementSpelled : Element → List Char → Prop
  | single {name : String} {as : List (String × String)} {tag : List Char}
      (attributes : AttributesSpelled as tag) :
      ElementSpelled (.mk name as "" []) ('<' :: (name.toList ++ (tag ++ ['/', '>'])))
  | around {name : String} {as : List (String × String)} {tag text content ws : List Char}
      {es : List Element} (attributes : AttributesSpelled as tag)
      (inside : ContentSpelled text es content) (blanks : Blanks ws) :
      ElementSpelled (.mk name as (String.ofList text) es)
        ('<' :: (name.toList ++ (tag ++ '>' ::
          (content ++ '<' :: '/' :: (name.toList ++ (ws ++ ['>']))))))

/-- the spellings of the text and the children of an element: pieces of the text, escaped or
literal, and children, each in their order, with what means nothing anywhere between them -/
inductive ContentSpelled : List Char → List Element → List Char → Prop
  | nil : ContentSpelled [] [] []
  | escaped {piece text cs rest : List Char} {es : List Element}
      (spelled : TextSpelled ['<', '&'] piece cs) (others : ContentSpelled text es rest) :
      ContentSpelled (piece ++ text) es (cs ++ rest)
  | literal {piece text rest : List Char} {es : List Element}
      (open_end : ¬"]]>".toList <:+: piece) (others : ContentSpelled text es rest) :
      ContentSpelled (piece ++ text) es
        ("<![CDATA[".toList ++ (piece ++ ("]]>".toList ++ rest)))
  | aside {text cs rest : List Char} {es : List Element} (aside : Aside cs)
      (others : ContentSpelled text es rest) : ContentSpelled text es (cs ++ rest)
  | child {e : Element} {text cs rest : List Char} {es : List Element}
      (spelled : ElementSpelled e cs) (others : ContentSpelled text es rest) :
      ContentSpelled text (e :: es) (cs ++ rest)

end

/-- what may stand in front of an element: what means nothing, and text without references -/
inductive Preamble : List Char → Prop
  | nil : Preamble []
  | text {cs rest : List Char} (bracket : '<' ∉ cs) (reference : '&' ∉ cs)
      (others : Preamble rest) : Preamble (cs ++ rest)
  | aside {cs rest : List Char} (aside : Aside cs) (others : Preamble rest) :
      Preamble (cs ++ rest)

end MachineSpec.Markup
