import MachineSpec.Yaml.Token

/-!
# YAML nodes

A document as a tree.  Anchors are numbers, and an alias leads to the last node with its number.  A
text that breaks off in a fault leaves a tree too: it is cut where the fault was met, and whoever
reads that far finds the fault.

* `Properties`          what stands before a node
* `Node`                a node of the tree
* `Node.empty`          a node that is not written at all
* `Node.events`         the length of a tree, where a collection has a start and an end
* `Node.anchored`       the nodes with an anchor, in the order in which they start
-/

namespace MachineSpec.Yaml

/-- the number of a node's anchor and the bytes of its tag -/
structure Properties where
  anchor? : Option Nat := none
  tag? : Option Bytes := none
  deriving DecidableEq, Repr

/-- a node and where it starts; `cut` stands where the text breaks off -/
inductive Node where
  | cut
  | alias (anchor : Nat)
  | scalar (mark : Mark) (properties : Properties) (style : Style) (text : String)
  | sequence (mark : Mark) (properties : Properties) (items : List Node)
  | mapping (mark : Mark) (properties : Properties) (members : List (Node × Node))
  deriving Repr, Inhabited

namespace Node

def empty (mark : Mark) : Node := .scalar mark {} .plain ""

def anchor? : Node → Option Nat
  | .cut => none
  | .alias _ => none
  | .scalar _ p _ _ => p.anchor?
  | .sequence _ p _ => p.anchor?
  | .mapping _ p _ => p.anchor?

mutual

/-- the length of a tree: a scalar counts once, a collection at both ends -/
def events : Node → Nat
  | .cut => 0
  | .alias _ => 1
  | .scalar .. => 1
  | .sequence _ _ items => 1 + itemEvents items
  | .mapping _ _ members => 1 + memberEvents members

/-- the length of items and of their end, which a cut stands in for -/
def itemEvents : List Node → Nat
  | [] => 1
  | [.cut] => 0
  | n :: ns => events n + itemEvents ns

/-- the length of members and of their end, which a cut stands in for -/
def memberEvents : List (Node × Node) → Nat
  | [] => 1
  | [(.cut, .cut)] => 0
  | (k, v) :: ms => events k + events v + memberEvents ms

end

mutual

/-- the nodes with an anchor below a node, in the order in which they start -/
def anchoredBelow : Node → List (Nat × Node)
  | .sequence _ _ items => anchoredItems items
  | .mapping _ _ members => anchoredMembers members
  | _ => []

def anchoredItems : List Node → List (Nat × Node)
  | [] => []
  | n :: ns => (n.anchor?.map (·, n)).toList ++ anchoredBelow n ++ anchoredItems ns

def anchoredMembers : List (Node × Node) → List (Nat × Node)
  | [] => []
  | (k, v) :: ms =>
    (k.anchor?.map (·, k)).toList ++ anchoredBelow k ++
      ((v.anchor?.map (·, v)).toList ++ anchoredBelow v) ++ anchoredMembers ms

end

/-- the nodes with an anchor, in the order in which they start -/
def anchored (n : Node) : List (Nat × Node) := anchoredItems [n]

end Node

end MachineSpec.Yaml
