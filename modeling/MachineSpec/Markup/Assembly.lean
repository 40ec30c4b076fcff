import MachineSpec.Markup.Element

/-!
# A reader and an assembler

Reading a text takes two rows of open elements.  The reader hands out the tokens and keeps the names
of the elements that are open; it refuses an end tag that does not name the innermost of them.  The
assembler keeps the open elements themselves; it takes the innermost one off at an end tag without a
look at the name, and where none is open it passes the tag over.  `Element.readFrom` keeps one row
for both, which comes to the same as long as the two agree.

* `Reader`, `Reader.read`      what is left of a text, the names that are open, and the next token
* `Assembly`, `Assembly.turn`  both rows, and what one token more comes to
* `Assembly.run`               reading on from there
* `Assembly.Reaches`           the tokens that have been read, and what is there then
* `Head`, `Edge`               the tag of an element, and where an element starts and ends
* `Element.heads`, `Token.heads`   the tags in a tree, and among tokens
* `Element.edges`, `Token.edges`   the edges in a tree, and of tokens
-/

namespace MachineSpec.Markup

/-! ## the reader -/

/-- what is left of a text, and the names of the elements that are open there, innermost first -/
structure Reader where
  place : List Char
  opened : List String
  deriving DecidableEq, Repr

namespace Reader

/-- the names that are open behind a token -/
def follow (opened : List String) : Token → Except Cause (List String)
  | .opening tag => .ok (String.ofList (tagName tag) :: opened)
  | .closing name =>
    match opened with
    | [] => .error (.unmatchedEndTag (String.ofList name))
    | n :: ns =>
      if n = String.ofList name then .ok ns else .error (.otherEndTag n (String.ofList name))
  | .text _ | .single _ | .literal _ | .skipped => .ok opened

/-- the next token, and the reader behind it -/
def read (r : Reader) : Except Failure (Token × Reader) :=
  match Token.next r.place with
  | .error f => .error f
  | .ok (t, rest) =>
    match follow r.opened t with
    | .error cause => .error (.malformed cause r.place)
    | .ok opened => .ok (t, ⟨rest, opened⟩)

section read
variable {r r' : Reader} {t : Token}

theorem read_of_next_error {f : Failure} (h : Token.next r.place = .error f) :
    r.read = .error f := by
  unfold read
  rw [h]

theorem read_of_next {rest : List Char} (h : Token.next r.place = .ok (t, rest)) :
    r.read = match follow r.opened t with
      | .error cause => .error (.malformed cause r.place)
      | .ok opened => .ok (t, ⟨rest, opened⟩) := by
  unfold read
  rw [h]

/-- a token that is handed out is the next one, and its name, if it has to, has been checked -/
theorem of_read (h : r.read = .ok (t, r')) :
    Token.next r.place = .ok (t, r'.place) ∧ follow r.opened t = .ok r'.opened := by
  unfold read at h
  split at h
  · cases h
  · next t rest hn =>
    split at h
    · cases h
    · next opened hf =>
      cases h
      exact ⟨hn, hf⟩

end read

end Reader

/-! ## the assembler -/

namespace Progress

/-- what a token makes of the open elements, and the element that it completes, if any -/
def receive (stack : List Element) : Token → Except Cause (List Element × Option Element)
  | .text cs => do return (addText (← unescape cs) stack, none)
  | .literal cs => .ok (addText (String.ofList cs) stack, none)
  | .skipped => .ok (stack, none)
  | .opening tag => do return ((← Element.ofTag tag) :: stack, none)
  | .single tag => do return (stack, some (← Element.ofTag tag))
  | .closing _ =>
    match stack with
    | [] => .ok ([], none)
    | e :: es => .ok (es, some e)

/-- an element that is complete goes to the one it stands in -/
def settle : List Element × Option Element → Progress
  | (stack, none) => .inside stack
  | (stack, some e) => close e stack

end Progress

structure Assembly where
  reader : Reader
  stack : List Element

/-- what one token more comes to -/
inductive Turn where
  | on (a : Assembly)
  | over (result : Except Failure Element)

/-- reading ends with the first element that stands in no other -/
def Turn.behind (reader : Reader) : Progress → Turn
  | .inside stack => .on ⟨reader, stack⟩
  | .finished root => .over (.ok root)

namespace Assembly

def start (cs : List Char) : Assembly := ⟨⟨Element.unmarked cs, []⟩, []⟩

def turn (a : Assembly) : Turn :=
  match a.reader.read with
  | .error f => .over (.error f)
  | .ok (t, reader) =>
    match Progress.receive a.stack t with
    | .error cause => .over (.error (.malformed cause a.reader.place))
    | .ok out => .behind reader (Progress.settle out)

section turn
variable {a a' : Assembly}

theorem turn_of_read_error {f : Failure} (h : a.reader.read = .error f) :
    a.turn = .over (.error f) := by
  unfold turn
  rw [h]

theorem turn_of_read {t : Token} {reader : Reader} (h : a.reader.read = .ok (t, reader)) :
    a.turn = match Progress.receive a.stack t with
      | .error cause => .over (.error (.malformed cause a.reader.place))
      | .ok out => .behind reader (Progress.settle out) := by
  unfold turn
  rw [h]

theorem exists_of_turn (h : a.turn = .on a') : ∃ t, a.reader.read = .ok (t, a'.reader) := by
  cases hr : a.reader.read with
  | error f =>
    rw [turn_of_read_error hr] at h
    cases h
  | ok p =>
    obtain ⟨t, reader⟩ := p
    rw [turn_of_read hr] at h
    split at h
    · cases h
    · next out _ =>
      cases hs : Progress.settle out with
      | finished root =>
        rw [hs] at h
        cases h
      | inside stack =>
        rw [hs] at h
        cases h
        exact ⟨t, rfl⟩

theorem length_lt_of_turn (h : a.turn = .on a') :
    a'.reader.place.length < a.reader.place.length := by
  obtain ⟨t, hr⟩ := exists_of_turn h
  exact Token.length_lt_of_next (Reader.of_read hr).1

end turn

/-- reading on, token by token -/
def run (a : Assembly) : Except Failure Element :=
  match _h : a.turn with
  | .over result => result
  | .on a' => run a'
termination_by a.reader.place.length
decreasing_by exact length_lt_of_turn _h

theorem run_of_turn_over {a : Assembly} {result : Except Failure Element}
    (h : a.turn = .over result) : a.run = result := by
  rw [run]
  split
  · next heq =>
    rw [h] at heq
    cases heq
    rfl
  · next heq =>
    rw [h] at heq
    cases heq

theorem run_of_turn_on {a a' : Assembly} (h : a.turn = .on a') : a.run = a'.run := by
  rw [run]
  split
  · next heq =>
    rw [h] at heq
    cases heq
  · next heq =>
    rw [h] at heq
    cases heq
    rfl

/-- when `ts` have been read of a text, `a` is there -/
inductive Reaches (cs : List Char) : List Token → Assembly → Prop
  | start : Reaches cs [] (start cs)
  | turn {ts : List Token} {t : Token} {a a' : Assembly} {reader : Reader} (before : Reaches cs ts a)
      (read : a.reader.read = .ok (t, reader)) (on : a.turn = .on a') : Reaches cs (ts ++ [t]) a'

end Assembly

/-! ## tags -/

/-- the name and the attributes of an element -/
structure Head where
  name : String
  attributes : List (String × String)
  deriving DecidableEq, Repr

def Head.ofTag (tag : List Char) : Except Cause Head := do
  let e ← Element.ofTag tag
  return ⟨e.name, e.attributes⟩

namespace Element

mutual

/-- the tags of an element and of all elements in it, in the order of a document -/
def heads : Element → List Head
  | .mk n as _ es => ⟨n, as⟩ :: headsWithin es

def headsWithin : List Element → List Head
  | [] => []
  | e :: es => e.heads ++ headsWithin es

end

end Element

namespace Token

/-- the tag of a token that starts an element -/
def tag? : Token → Option (List Char)
  | .opening tag | .single tag => some tag
  | .text _ | .closing _ | .literal _ | .skipped => none

/-- the tags among tokens -/
def heads (ts : List Token) : Except Cause (List Head) := (ts.filterMap tag?).mapM Head.ofTag

end Token

/-! ## edges -/

/-- an element starts, or ends -/
inductive Edge where
  | start (head : Head)
  | stop (name : String)
  deriving DecidableEq, Repr

namespace Edge

def head? : Edge → Option Head
  | .start head => some head
  | .stop _ => none

def isStart : Edge → Bool
  | .start _ => true
  | .stop _ => false

def isStop : Edge → Bool
  | .start _ => false
  | .stop _ => true

/-- an element has started, and all that have started have ended -/
def Complete (es : List Edge) : Prop := es ≠ [] ∧ es.countP isStart = es.countP isStop

end Edge

namespace Element

mutual

/-- the edges of an element and of all elements in it, in the order of a document -/
def edges : Element → List Edge
  | .mk n as _ es => .start ⟨n, as⟩ :: (edgesWithin es ++ [.stop n])

def edgesWithin : List Element → List Edge
  | [] => []
  | e :: es => e.edges ++ edgesWithin es

end

/-- the edges of an element that has not ended -/
def openEdges : Element → List Edge
  | .mk n as _ es => .start ⟨n, as⟩ :: edgesWithin es

end Element

/-- the edges of a tree as far as it has come -/
def Progress.edges : Progress → List Edge
  | .inside stack => stack.reverse.flatMap Element.openEdges
  | .finished root => root.edges

namespace Token

/-- the edges that a token tells of -/
def edges : Token → Except Cause (List Edge)
  | .opening tag => do return [.start (← Head.ofTag tag)]
  | .single tag => do
    let head ← Head.ofTag tag
    return [.start head, .stop head.name]
  | .closing name => .ok [.stop (String.ofList name)]
  | .text _ | .literal _ | .skipped => .ok []

/-- the edges that some tokens tell of -/
def allEdges : List Token → Except Cause (List Edge)
  | [] => .ok []
  | t :: ts => do return (← t.edges) ++ (← allEdges ts)

end Token

end MachineSpec.Markup
