import MachineSpec.Document.Mismatch
import MachineSpec.Yaml.Fault

/-!
# YAML errors

Why a text is no YAML document of the expected shape.

* `Step`                a step from a node to one inside it
* `Error`, `Error.message`
-/

namespace MachineSpec.Yaml

/-- a step from a node to one inside it; a key that is no scalar has no name -/
inductive Step where
  | item (i : Nat)
  | member (key? : Option String)
  deriving DecidableEq, Repr

namespace Step

/-- the wording of steps behind others -/
def textBehind (before : String) : List Step → String
  | [] => before
  | .item i :: steps => textBehind (before ++ "[" ++ toString i ++ "]") steps
  | .member key? :: steps =>
    textBehind (before ++ (if before = "" then "" else ".") ++ key?.getD "?") steps

/-- the wording of the steps from the root -/
def text (path : List Step) : String := textBehind "" path

end Step

/-- why a text is not the expected document; the fault of a stream stands for itself -/
inductive Error where
  | fault (f : Fault)
  | ended
  | mismatch (m : Mismatch) (path : List Step) (mark : Mark)
  | repetition
  | severalDocuments
  | lost (text : String)
  deriving DecidableEq, Repr

namespace Error

def message : Error → String
  | .fault f => f.message
  | .ended => "EOF while parsing a value"
  | .mismatch m path mark =>
    (if path.isEmpty then "" else Step.text path ++ ": ") ++ m.message ++ mark.suffix
  | .repetition => "repetition limit exceeded"
  | .severalDocuments =>
    "deserializing from YAML containing more than one document is not supported"
  | .lost text => text

end Error

end MachineSpec.Yaml
