import MachineSpec.Markup.Token

/-!
# Elements

The tree that a markup text holds.  An element has a name, attributes, the text that stands directly
in it, and the elements in it.  A text is read token by token, with the elements that are not closed
yet kept innermost first; reading ends with the first element that stands in no other.

* `Element`               a node of the tree
* `Element.ofTag`         the element of a tag, with nothing in it
* `Progress`, `Progress.take`   how far the tree has come, and one token more
* `Element.ofText`        the first element of a text
-/

namespace MachineSpec.Markup

inductive Element where
  | mk (name : String) (attributes : List (String × String)) (text : String)
    (children : List Element)
  deriving Repr, Inhabited

namespace Element

def name : Element → String
  | .mk n _ _ _ => n

def attributes : Element → List (String × String)
  | .mk _ as _ _ => as

def text : Element → String
  | .mk _ _ t _ => t

def children : Element → List Element
  | .mk _ _ _ es => es

def addText : Element → String → Element
  | .mk n as t es, s => .mk n as (t ++ s) es

def addChild : Element → Element → Element
  | .mk n as t es, e => .mk n as t (es ++ [e])

def attribute? (e : Element) (key : String) : Option String := e.attributes.lookup key

def ofTag (tag : List Char) : Except Cause Element := do
  return .mk (String.ofList (tagName tag)) (← Markup.attributes tag) "" []

end Element

/-- how far the tree of a text has come -/
inductive Progress where
  | inside (stack : List Element)
  | finished (root : Element)

namespace Progress

/-- an element is complete; it belongs to the innermost one that is not -/
def close (e : Element) : List Element → Progress
  | [] => .finished e
  | p :: ps => .inside (p.addChild e :: ps)

def addText (s : String) : List Element → List Element
  | [] => []
  | p :: ps => p.addText s :: ps

/-- one token more; `stack` are the elements that are not closed, innermost first -/
def take (stack : List Element) : Token → Except Cause Progress
  | .text cs => do return .inside (addText (← unescape cs) stack)
  | .literal cs => .ok (.inside (addText (String.ofList cs) stack))
  | .skipped => .ok (.inside stack)
  | .opening tag => do return .inside ((← Element.ofTag tag) :: stack)
  | .single tag => do return close (← Element.ofTag tag) stack
  | .closing name =>
    match stack with
    | [] => .error (.unmatchedEndTag (String.ofList name))
    | e :: es =>
      if e.name = String.ofList name then .ok (close e es)
      else .error (.otherEndTag e.name (String.ofList name))

end Progress

namespace Element

/-- the first element that is completed from a place on -/
def readFrom (stack : List Element) (place : List Char) : Except Failure Element :=
  match _h : Token.next place with
  | .error f => .error f
  | .ok (t, rest) =>
    match Progress.take stack t with
    | .error cause => .error (.malformed cause place)
    | .ok (.finished root) => .ok root
    | .ok (.inside stack) => readFrom stack rest
termination_by place.length
decreasing_by exact Token.length_lt_of_next _h

def byteOrderMark : Char := '\uFEFF'

def unmarked : List Char → List Char
  | [] => []
  | c :: cs => if c = byteOrderMark then cs else c :: cs

def ofText (cs : List Char) : Except Failure Element := readFrom [] (unmarked cs)

end Element

end MachineSpec.Markup
