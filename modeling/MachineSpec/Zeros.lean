import MachineSpec.Document.Basic
import MachineSpec.Json.Value
import MachineSpec.Spec.Basic
import MachineSpec.Yaml.Outline

/-!
# Members that are zero

A member that is null or the zero of its sort says nothing: zero, a flag that is not set, the empty
text, the empty list.  They are found at every depth of a document, of a JSON value and of the
outline of a YAML document, each by the keys on the way to it.

* `KeyPath`, `zerosUnder`   the way to a member, and the zeros from a member on
* `Document.zeros`, `Json.Value.zeros`, `Yaml.Outline.zeros`   the members that are zero
* `Spec.blankOptions`           the empty keys and values of template options
-/

namespace MachineSpec

/-- the keys on the way to a member, from the outermost record on -/
abbrev KeyPath := List String

/-- the zeros from a member on: itself, if it is zero, and those below it -/
def zerosUnder (key : String) (zero : Bool) (below : List KeyPath) : List KeyPath :=
  (if zero then [[key]] else []) ++ below.map (key :: ·)

namespace Document

def isZero : Document → Bool
  | .text s => s = ""
  | .number n => n = 0
  | .flag b => !b
  | .list ds => ds.isEmpty
  | .record _ => false

mutual

/-- the members that are zero, at any depth -/
def zeros : Document → List KeyPath
  | .list ds => itemZeros ds
  | .record ms => memberZeros ms
  | _ => []

def itemZeros : List Document → List KeyPath
  | [] => []
  | d :: ds => zeros d ++ itemZeros ds

def memberZeros : List (String × Document) → List KeyPath
  | [] => []
  | (key, d) :: ms => zerosUnder key d.isZero (zeros d) ++ memberZeros ms

end

end Document

namespace Json

/-- does a numeral stand for zero, whatever its sign and its exponent -/
def Numeral.isZero (n : Numeral) : Bool :=
  n.whole = 0 && n.fraction?.all fun ds => ds.chars.all (· = '0')

namespace Value

def isZero : Value → Bool
  | .null => true
  | .flag b => !b
  | .number n => n.isZero
  | .text s => s = ""
  | .list vs => vs.isEmpty
  | .object _ => false

mutual

def zeros : Value → List KeyPath
  | .list vs => itemZeros vs
  | .object ms => memberZeros ms
  | _ => []

def itemZeros : List Value → List KeyPath
  | [] => []
  | v :: vs => zeros v ++ itemZeros vs

def memberZeros : List (String × Value) → List KeyPath
  | [] => []
  | (key, v) :: ms => zerosUnder key v.isZero (zeros v) ++ memberZeros ms

end

end Value

end Json

namespace Yaml

def Sense.isZero : Sense → Bool
  | .null => true
  | .flag b => !b
  | .integer n => n = 0
  | .fraction x => x == 0
  | .text => false

namespace Outline

/-- a plain scalar is taken for what its word stands for, any other for a text -/
def isZero : Outline → Bool
  | .scalar .plain s => (Sense.ofWord s).isZero
  | .scalar _ s => s = ""
  | .sequence os => os.isEmpty
  | .mapping _ => false

mutual

def zeros : Outline → List KeyPath
  | .sequence os => itemZeros os
  | .mapping ms => memberZeros ms
  | _ => []

def itemZeros : List Outline → List KeyPath
  | [] => []
  | o :: os => zeros o ++ itemZeros os

def memberZeros : List (Outline × Outline) → List KeyPath
  | [] => []
  | (key, o) :: ms => zerosUnder key.text o.isZero (zeros o) ++ memberZeros ms

end

end Outline

end Yaml

/-- which of the key and the value of an option are empty -/
def TemplateOption.blanks (o : TemplateOption) : List String :=
  (if o.key = "" then ["key"] else []) ++ (if o.value = "" then ["value"] else [])

/-- the empty keys and values of the options of the template -/
def Spec.blankOptions (s : Spec) : List KeyPath :=
  s.diskTemplate.elim [] fun t =>
    (t.options.flatMap TemplateOption.blanks).map fun name => ["disk_template", "options", name]

end MachineSpec
