import MachineSpec.Markup.Element

/-!
# Writing markup

The trees that are written.  A node is a lone tag, an element around a text, or an element around
other nodes, and is written without white space between tags.

* `Node`             a tree to be written
* `Node.lexemes`     its tags and texts in the order in which they are written
* `Node.print`       its text
* `Node.toElement`   the element that it reads as
-/

namespace MachineSpec.Markup

inductive Node where
  | lone (name : String) (attributes : List (String × String))
  | leaf (name : String) (attributes : List (String × String)) (text : String)
  | group (name : String) (attributes : List (String × String)) (children : List Node)
  deriving Repr, Inhabited

namespace Node

def attributes (as : List (String × String)) : String :=
  String.join (as.map fun a => " " ++ a.1 ++ "=\"" ++ escape a.2 ++ "\"")

def opening (name : String) (as : List (String × String)) : String :=
  "<" ++ name ++ attributes as ++ ">"

def single (name : String) (as : List (String × String)) : String :=
  "<" ++ name ++ attributes as ++ "/>"

def closing (name : String) : String := "</" ++ name ++ ">"

mutual

/-- tags and texts in the order in which they are written -/
def lexemes : Node → List String
  | .lone name as => [single name as]
  | .leaf name as text => [opening name as, escape text, closing name]
  | .group name as children => opening name as :: (childLexemes children ++ [closing name])

def childLexemes : List Node → List String
  | [] => []
  | n :: ns => lexemes n ++ childLexemes ns

end

def print (n : Node) : String := String.join (lexemes n)

mutual

/-- the element that a node reads as -/
def toElement : Node → Element
  | .lone name as => .mk name as "" []
  | .leaf name as text => .mk name as text []
  | .group name as children => .mk name as "" (childElements children)

def childElements : List Node → List Element
  | [] => []
  | n :: ns => toElement n :: childElements ns

end

end Node

end MachineSpec.Markup
