import MachineSpec.Text.Quoted

/-!
# Formats

The three written forms of a specification, their names, and the form that a file name asks for.

* `Format.name`       the name of a format
* `Format.ofName?`    the format of a name; letters may be of either case
* `Format.ofPath?`    the format that the extension of a path names
-/

namespace MachineSpec

inductive Format where
  | json
  | yaml
  | xml
  deriving DecidableEq, Repr

/-- a name that is none of a format -/
structure UnknownFormat where
  name : String
  deriving DecidableEq, Repr

namespace UnknownFormat

def message (e : UnknownFormat) : String :=
  "unknown format " ++ Text.quote e.name ++ ", expected json, yaml or xml"

end UnknownFormat

namespace Format

def name : Format → String
  | .json => "json"
  | .yaml => "yaml"
  | .xml => "xml"

def all : List Format := [.json, .yaml, .xml]

/-- the names that a format answers to -/
def names : Format → List String
  | .json => ["json"]
  | .yaml => ["yaml", "yml"]
  | .xml => ["xml"]

def lowerCase (s : String) : String := String.ofList (s.toList.map Char.toLower)

def ofName? (s : String) : Except UnknownFormat Format :=
  match all.find? fun f => f.names.contains (lowerCase s) with
  | some f => .ok f
  | none => .error ⟨s⟩

def components (path : List Char) : List (List Char) :=
  (path.splitOn '/').filter fun part => part ≠ [] && part ≠ ['.']

/-- what follows the last dot of a file name, unless nothing stands before that dot -/
def extension? (file : List Char) : Option (List Char) :=
  let after := file.reverse.takeWhile (· ≠ '.')
  let before := file.reverse.dropWhile (· ≠ '.')
  match before with
  | [] => none
  | [_] => none
  | _ :: _ => some after.reverse

/-- the format that the extension of the last component names -/
def ofPath? (path : String) : Option Format := do
  let file ← (components path.toList).getLast?
  if file = ['.', '.'] then none
  let ext ← extension? file
  (ofName? (String.ofList ext)).toOption

end Format

end MachineSpec
