import MachineSpec.Yaml.Sense
import MachineSpec.Yaml.Tree

/-!
# Outlines of YAML documents

What a document says, without the marks of where it says so: a tree of scalars, sequences and
mappings.  Only a tree without anchors, aliases and tags that is not cut has an outline.

* `Outline`              the tree
* `Outline.text`         the text of a scalar
* `Outline.isVoid`       is it a plain word for nothing
* `keysOf`               the texts of the keys of a mapping
* `Outlined`             the nodes of an outline
* `Outline.Written`      the byte texts whose only document has this outline
-/

namespace MachineSpec.Yaml

inductive Outline where
  | scalar (style : Style) (text : String)
  | sequence (items : List Outline)
  | mapping (members : List (Outline × Outline))
  deriving Repr, Inhabited

namespace Outline

def text : Outline → String
  | .scalar _ s => s
  | _ => ""

/-- is it a plain scalar that is null: one of its words, or nothing at all -/
def isVoid : Outline → Bool
  | .scalar .plain s => s = "" || Sense.isNull s
  | _ => false

end Outline

/-- the texts of the keys of a mapping -/
def keysOf (ms : List (Outline × Outline)) : List String := ms.map fun m => m.1.text

mutual

/-- a node without an anchor and a tag, and none of them below it -/
inductive Outlined : Node → Outline → Prop
  | scalar (mark : Mark) (style : Style) (s : String) :
      Outlined (.scalar mark {} style s) (.scalar style s)
  | sequence (mark : Mark) {ns : List Node} {os : List Outline} (items : ItemsOutlined ns os) :
      Outlined (.sequence mark {} ns) (.sequence os)
  | mapping (mark : Mark) {ns : List (Node × Node)} {ms : List (Outline × Outline)}
      (members : MembersOutlined ns ms) : Outlined (.mapping mark {} ns) (.mapping ms)

inductive ItemsOutlined : List Node → List Outline → Prop
  | nil : ItemsOutlined [] []
  | cons {n : Node} {o : Outline} {ns : List Node} {os : List Outline} (item : Outlined n o)
      (rest : ItemsOutlined ns os) : ItemsOutlined (n :: ns) (o :: os)

inductive MembersOutlined : List (Node × Node) → List (Outline × Outline) → Prop
  | nil : MembersOutlined [] []
  | cons {k n : Node} {q o : Outline} {ns : List (Node × Node)} {ms : List (Outline × Outline)}
      (key : Outlined k q) (value : Outlined n o) (rest : MembersOutlined ns ms) :
      MembersOutlined ((k, n) :: ns) ((q, o) :: ms)

end

/-- the byte texts that hold one document, which has this outline, and no fault -/
def Outline.Written (o : Outline) (bytes : Bytes) : Prop :=
  ∃ root : Node, Contents.ofBytes bytes = ⟨some root, none, false⟩ ∧ Outlined root o

end MachineSpec.Yaml
