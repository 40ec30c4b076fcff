import MachineSpec.Document.Basic
import MachineSpec.Document.Shape
import MachineSpec.Yaml.Error
import MachineSpec.Yaml.Sense
import MachineSpec.Yaml.Tree

/-!
# Reading YAML

A reader takes a node and gives what it stands for.  A record and a list may also be left empty, a
keyword may also be written as a tag, and a field may be null, which leaves it out.  An alias is
read as the node it leads to; a text may follow a hundred of them for each piece of it.

* `Reading`                    what reading depends on, and what it ends with
* `unsuited`                   the mismatch of a node of another sort
* `Reader.text`, `number`, `flag`, `choice`, `list`, `record`, `field`   the readers of each sort
* `Shape.nodeReader`           the reader of a shape
* `read`                       the document of a text
-/

namespace MachineSpec.Yaml

/-! ## reading -/

/-- what reading depends on: the nodes with an anchor, the last one first, how many aliases may be
followed, and what is found where the text breaks off -/
structure Context where
  anchored : List (Nat × Node)
  limit : Nat
  broken : Error

/-- why reading ends: an error, or a mismatch that has the place of the record around it -/
inductive Stop where
  | error (e : Error)
  | unplaced (m : Mismatch)

/-- reads a part of a document and counts the aliases followed -/
abbrev Reading := ReaderT Context (StateT Nat (Except Stop))

abbrev NodeReader (α : Type) := List Step → Node → Reading α

/-- the node itself, or the one that an alias leads to -/
def follow : Node → Reading Node
  | .cut => do throw (.error (← read).broken)
  | .alias n => do
    modify (· + 1)
    let context ← read
    if context.limit < (← get) then throw (.error .repetition)
    return (context.anchored.lookup n).getD .cut
  | n => return n

def Node.mark : Node → Mark
  | .cut => .start
  | .alias _ => .start
  | .scalar mark .. => mark
  | .sequence mark .. => mark
  | .mapping mark .. => mark

def mismatch {α : Type} (m : Mismatch) (path : List Step) (n : Node) : Reading α :=
  throw (.error (.mismatch m path n.mark))

/-- a mismatch without a place is one of the record at hand -/
def placing {α : Type} (path : List Step) (mark : Mark) (action : Reading α) : Reading α :=
  fun context count =>
    match action context count with
    | .error (.unplaced m) => .error (.error (.mismatch m path mark))
    | r => r

/-! ## tags -/

def coreTag (name : String) : Bytes := Utf8.encode ("tag:yaml.org,2002:" ++ name)

/-- the text of a tag that starts with a mark, without the mark unless it is all -/
def localTag? (p : Properties) : Option String := do
  match ← p.tag? with
  | 33 :: rest => do
    let cs ← Utf8.decode? (if rest.isEmpty then [33] else rest)
    return String.ofList cs
  | _ => none

def isLocal : Bytes → Bool
  | 33 :: _ => true
  | _ => false

def describeText (s : String) : String := "string " ++ Text.quote s

/-- the mismatch of a scalar whose tag promises something else than it holds, or of one that holds
what nobody expected -/
def promised (s expected promise : String) (found? : Option String) : Mismatch :=
  match found? with
  | some found => .sort found expected
  | none => .value (describeText s) promise

/-- the mismatch of a scalar of another sort -/
def unsuitedScalar (expected : String) (p : Properties) (style : Style) (s : String) : Mismatch :=
  let word := Mismatch.sort (Sense.describe s (Sense.ofWord s)) expected
  let text := Mismatch.sort (describeText s) expected
  match p.tag? with
  | none => if style = .plain then word else text
  | some tag =>
    if tag = coreTag "bool" then
      promised s expected "a boolean" ((Sense.flag? s).map fun b => Sense.describe s (.flag b))
    else if tag = coreTag "int" then
      promised s expected "an integer"
        ((Sense.integer? s.toList).map fun n => Sense.describe s (.integer n))
    else if tag = coreTag "float" then
      promised s expected "a float"
        ((Sense.fraction? s).map fun x => Sense.describe s (.fraction x))
    else if tag = coreTag "null" then
      promised s expected "null" (if Sense.isNull s then some (Sense.describe s .null) else none)
    else if isLocal tag && style = .plain then word
    else text

def unsuited (expected : String) : Node → Mismatch
  | .scalar _ p style s => unsuitedScalar expected p style s
  | .sequence .. => .sort "sequence" expected
  | .mapping .. => .sort "map" expected
  | .cut | .alias _ => .sort "unit value" expected

namespace NodeReader

/-! ## scalars -/

/-- may this scalar be something else than a text; a block scalar needs a tag for it -/
def isWord (tag : String) (p : Properties) (style : Style) : Bool :=
  style = .plain || style = .literal && p.tag? = some (coreTag tag)

def text : NodeReader Document := fun path n => do
  let n ← follow n
  match n with
  | .scalar _ _ _ s => return .text s
  | _ => mismatch (unsuited "a string" n) path n

def flag : NodeReader Document := fun path n => do
  let n ← follow n
  let b? := match n with
    | .scalar _ p style s => if isWord "bool" p style then Sense.flag? s else none
    | _ => none
  match b? with
  | some b => return .flag b
  | none => mismatch (unsuited "a boolean" n) path n

def number : NodeReader Document := fun path n => do
  let n ← follow n
  let v? := match n with
    | .scalar _ p style s => if isWord "int" p style then Sense.natural? s.toList else none
    | _ => none
  match v? with
  | none => mismatch (unsuited "u32" n) path n
  | some v =>
    if v < UInt32.size then return .number v.toUInt32
    else if v < UInt64.size then mismatch (.value (Sense.describeInteger v) "u32") path n
    else mismatch (unsuited "u32" n) path n

def isVoid (style : Style) (s : String) : Bool := style = .plain && (s = "" || Sense.isNull s)

/-- the mismatch of a node behind a tag that needs nothing there -/
def unit? : Node → Option Mismatch
  | .scalar _ _ style s => if isVoid style s then none else some (.value (describeText s) "null")
  | n => some (unsuited "unit" n)

/-- one of the words: a scalar, or a tag in front of nothing -/
def choice (words : List String) : NodeReader Document := fun path n => do
  let n ← follow n
  let p := match n with
    | .scalar _ p .. => p
    | .sequence _ p _ => p
    | .mapping _ p _ => p
    | _ => {}
  match localTag? p, n with
  | some word, _ =>
    if !words.contains word then throw (.unplaced (.unknownVariant word words))
    match unit? n with
    | none => return .text word
    | some m => mismatch m path n
  | none, .scalar _ _ _ s =>
    if words.contains s then return .text s
    else mismatch (.unknownVariant s words) path n
  | none, _ => mismatch (unsuited "a YAML tag starting with '!'" n) path n

/-! ## collections -/

/-- is a collection left empty by writing nothing -/
def isLeftEmpty : Node → Bool
  | .scalar _ _ style s => style = .plain && s = ""
  | _ => false

def items (reader : NodeReader Document) (path : List Step) :
    Nat → List Node → Reading (List Document)
  | _, [] => return []
  | i, n :: ns => do
    let d ← reader (path ++ [.item i]) n
    return d :: (← items reader path (i + 1) ns)

def list (reader : NodeReader Document) : NodeReader Document := fun path n => do
  let n ← follow n
  match n with
  | .sequence _ _ ns => return .list (← items reader path 0 ns)
  | _ =>
    if isLeftEmpty n then return .list []
    else mismatch (unsuited "a sequence" n) path n

/-- is a field null; a tag may say that it has to be -/
def isNull : Node → Reading Bool
  | .scalar _ p .plain s =>
    match p.tag? with
    | none => return s = "" || Sense.isNull s
    | some tag =>
      if tag ≠ coreTag "null" then return false
      else if Sense.isNull s then return true
      else throw (.unplaced (.value (describeText s) "null"))
  | _ => return false

/-- nothing for null, else what the reader gives -/
def field (reader : NodeReader Document) : NodeReader (Option Document) := fun path n => do
  let n ← follow n
  if ← isNull n then return none
  else return some (← reader path n)

def keyName (path : List Step) (n : Node) : Reading String := do
  match n with
  | .scalar _ _ _ s => return s
  | _ => mismatch (unsuited "field identifier" n) path n

def stepTo : Node → Step
  | .scalar _ _ _ s => .member (some s)
  | _ => .member none

/-- the members of a mapping; `seen` are the keys before these -/
def members (fields : List (String × NodeReader Document)) (path : List Step) :
    List String → List (Node × Node) → Reading (List (String × Document))
  | _, [] => return []
  | seen, (k, v) :: ms => do
    let n ← follow k
    let key ← keyName path n
    match fields.lookup key with
    | none => mismatch (.unknownField key (fields.map (·.1))) path n
    | some reader =>
      if seen.contains key then throw (.unplaced (.duplicateField key))
      let d? ← field reader (path ++ [stepTo k]) v
      let rest ← members fields path (key :: seen) ms
      match d? with
      | none => return rest
      | some d => return (key, d) :: rest

def record (title : String) (fields : List (String × NodeReader Document)) :
    NodeReader Document := fun path n => do
  let n ← follow n
  match n with
  | .mapping mark _ ms => placing path mark do return .record (← members fields path [] ms)
  | _ =>
    if isLeftEmpty n then return .record []
    else mismatch (unsuited ("struct " ++ title) n) path n

end NodeReader

/-! ## shapes -/

mutual

def nodeReader : Shape → NodeReader Document
  | .text => NodeReader.text
  | .number => NodeReader.number
  | .flag => NodeReader.flag
  | .choice words => NodeReader.choice words
  | .list item => NodeReader.list (nodeReader item)
  | .record title fields => NodeReader.record title (memberReaders fields)

def memberReaders : List (String × Shape) → List (String × NodeReader Document)
  | [] => []
  | (key, shape) :: fields => (key, nodeReader shape) :: memberReaders fields

end

namespace Contents

def context (c : Contents) (root : Node) : Context :=
  { anchored := root.anchored.reverse
    limit := root.events * 100
    broken := match c.fault? with
      | some f => .fault f
      | none => .ended }

/-- the document of the first tree; a text without one is an empty record -/
def document (c : Contents) (shape : Shape) : Except Error Document :=
  match c.root? with
  | none => .ok (.record [])
  | some root =>
    match nodeReader shape [] root (c.context root) 0 with
    | .ok (d, _) => .ok d
    | .error (.error e) => .error e
    | .error (.unplaced m) => .error (.mismatch m [] root.mark)

end Contents

/-- the document of a text that has this shape, with no other document behind it -/
def read (shape : Shape) (bytes : Bytes) : Except Error Document := do
  let c := Contents.ofBytes bytes
  let d ← c.document shape
  match c.fault? with
  | some f => throw (.fault f)
  | none => if c.more then throw .severalDocuments else return d

end MachineSpec.Yaml
