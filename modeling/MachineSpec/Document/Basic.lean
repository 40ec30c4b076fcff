/-!
# Documents

What a specification looks like once its notation is taken away: texts, numbers, flags, lists and
records with named members.  Two of the notations write documents, each in its own way.

* `Document`                     the tree
* `Document.member?`             a member of a record
* `textAt`, `numberAt`, `flagAt`, `listAt`   a member of a record, or the zero of its sort
-/

namespace MachineSpec

inductive Document where
  | text (s : String)
  | number (n : UInt32)
  | flag (b : Bool)
  | list (items : List Document)
  | record (members : List (String × Document))
  deriving Repr, Inhabited

namespace Document

/-- the first member of a record with this key -/
def member? (d : Document) (key : String) : Option Document :=
  match d with
  | .record ms => ms.lookup key
  | _ => none

/-- a member that is a text, or the empty text -/
def textAt (d : Document) (key : String) : String :=
  match d.member? key with
  | some (.text s) => s
  | _ => ""

def numberAt (d : Document) (key : String) : UInt32 :=
  match d.member? key with
  | some (.number n) => n
  | _ => 0

def flagAt (d : Document) (key : String) : Bool :=
  match d.member? key with
  | some (.flag b) => b
  | _ => false

def listAt (d : Document) (key : String) : List Document :=
  match d.member? key with
  | some (.list items) => items
  | _ => []

def asText : Document → String
  | .text s => s
  | _ => ""

end Document

end MachineSpec
