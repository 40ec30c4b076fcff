import MachineSpec.Document.Basic
import MachineSpec.Yaml.Quoting

/-!
# Writing YAML

A document in block form.  Each member of a record and each item of a list takes whole lines; a
record inside another stands two columns further to the right, a list stands below its key.

* `Printer.stack`       pieces of whole lines below each other
* `Printer.member`      a member of a record
* `Printer.item`        an item of a list
* `Printer.print`       the text of a document
-/

namespace MachineSpec.Yaml.Printer
open Quoting

/-- pieces of whole lines below each other; the place of the first one is at hand -/
def stack (indent : Nat) (pieces : List (List Char)) : List Char :=
  (pad indent).intercalate pieces

mutual

/-- an item of a list at this column, behind its dash -/
def item (indent : Nat) : Document → List Char
  | .text s => write (indent + 2) s.toList
  | .number n => (toString n.toNat).toList ++ ['\n']
  | .flag b => (toString b).toList ++ ['\n']
  | .list [] => ['[', ']', '\n']
  | .list ds => stack (indent + 2) (items (indent + 2) ds)
  | .record [] => ['\x7b', '\x7d', '\n']
  | .record ms => stack (indent + 2) (members (indent + 2) ms)

def items (indent : Nat) : List Document → List (List Char)
  | [] => []
  | d :: ds => ('-' :: ' ' :: item indent d) :: items indent ds

/-- what stands behind the colon of a key at this column -/
def value (indent : Nat) : Document → List Char
  | .text s => ' ' :: write (indent + 2) s.toList
  | .number n => ' ' :: (toString n.toNat).toList ++ ['\n']
  | .flag b => ' ' :: (toString b).toList ++ ['\n']
  | .list [] => [' ', '[', ']', '\n']
  | .list ds => '\n' :: (pad indent ++ stack indent (items indent ds))
  | .record [] => [' ', '\x7b', '\x7d', '\n']
  | .record ms => '\n' :: (pad (indent + 2) ++ stack (indent + 2) (members (indent + 2) ms))

def members (indent : Nat) : List (String × Document) → List (List Char)
  | [] => []
  | (key, d) :: ms => (key.toList ++ ':' :: value indent d) :: members indent ms

end

def printList : Document → List Char
  | .record [] => ['\x7b', '\x7d', '\n']
  | .record ms => stack 0 (members 0 ms)
  | .list [] => ['[', ']', '\n']
  | .list ds => stack 0 (items 0 ds)
  | .text s => write 2 s.toList
  | .number n => (toString n.toNat).toList ++ ['\n']
  | .flag b => (toString b).toList ++ ['\n']

def print (d : Document) : String := String.ofList (printList d)

end MachineSpec.Yaml.Printer
