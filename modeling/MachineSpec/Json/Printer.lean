import MachineSpec.Document.Basic
import MachineSpec.Json.Quoted

/-!
# Writing JSON

A document as JSON without white space, one lexeme after the other.

* `Printer.lexemes`   the lexemes of a document
* `Printer.print`     the text of a document
-/

namespace MachineSpec.Json.Printer

mutual

def lexemes : Document → List String
  | .text s => [Quoted.write s]
  | .number n => [toString n.toNat]
  | .flag b => [if b then "true" else "false"]
  | .list [] => ["[", "]"]
  | .list (d :: ds) => "[" :: (lexemes d ++ moreItems ds)
  | .record [] => ["\x7b", "\x7d"]
  | .record ((key, d) :: ms) => "\x7b" :: Quoted.write key :: ":" :: (lexemes d ++ moreMembers ms)

/-- the items behind the first one, and the end of the list -/
def moreItems : List Document → List String
  | [] => ["]"]
  | d :: ds => "," :: (lexemes d ++ moreItems ds)

/-- the members behind the first one, and the end of the record -/
def moreMembers : List (String × Document) → List String
  | [] => ["\x7d"]
  | (key, d) :: ms => "," :: Quoted.write key :: ":" :: (lexemes d ++ moreMembers ms)

end

def print (d : Document) : String := String.join (lexemes d)

end MachineSpec.Json.Printer
