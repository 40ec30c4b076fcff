import MachineSpec.Document.Basic
import MachineSpec.Document.Shape
import MachineSpec.Json.Number
import MachineSpec.Json.Quoted
import MachineSpec.Text.Quoted

/-!
# Reading JSON

A reader takes the value at a place and gives what it stands for and the place behind it, or the
first fault in reading order, whether of the notation or of the shape.  A record may also be
written as a list of its fields in order, a keyword also as an object with one member that is null,
and a field may be null, which leaves it out.

* `Reader`                     a function on places
* `skip`                       passes over white space
* `mismatch`                   the fault of a value of another sort
* `Reader.text`, `number`, `flag`, `choice`, `list`, `record`, `field`   the readers of each sort
* `Shape.reader`               the reader of a shape
* `read`                       the document of a text
-/

namespace MachineSpec.Json

/-- what a value at a place stands for, and the place behind it -/
abbrev Reader (α : Type) := Place → Except Fault (α × Place)

def isBlank : Glyph → Bool
  | .char c => c = ' ' || c = '\n' || c = '\t' || c = '\r'
  | _ => false

def skip (p : Place) : Place := p.dropWhile isBlank

def word : List Char → Place → Except Fault Place
  | [], p => .ok p
  | _ :: _, [] => .error (.behind .endInValue [])
  | c :: cs, g :: r =>
    if g = .char c then word cs r else .error (.past .expectedIdent (g :: r) 1)

/-- the fault of a value of another sort; scalars are read to the end -/
def mismatch (expected : String) (p : Place) : Fault :=
  match p with
  | .char 'n' :: r => word' r "ull" "null"
  | .char 't' :: r => word' r "rue" "boolean `true`"
  | .char 'f' :: r => word' r "alse" "boolean `false`"
  | .char '-' :: r => number (Number.scan false r)
  | .char '"' :: r =>
    match Quoted.scan r with
    | .ok (s, r) => .behind (.mismatch (.sort ("string " ++ Text.quote s) expected)) r
    | .error f => f
  | .char '[' :: _ => .before (.mismatch (.sort "sequence" expected)) p
  | .char '\x7b' :: _ => .before (.mismatch (.sort "map" expected)) p
  | g :: _ =>
    match Digit.value? g with
    | some _ => number (Number.scan true p)
    | none => .on .expectedValue p
  | [] => .on .expectedValue p
where
  word' (r : Place) (letters found : String) : Fault :=
    match word letters.toList r with
    | .ok r => .behind (.mismatch (.sort found expected)) r
    | .error f => f
  number : Except Fault (Number × Place) → Fault
    | .ok (n, r) => .before (.mismatch (.sort n.describe expected)) r
    | .error f => f

namespace Reader

/-- a value that starts as `start` asks; the end of the text is a fault of its own -/
def value {α : Type} (expected : String) (start : Reader (Option α)) : Reader α := fun p =>
  match skip p with
  | [] => .error (.on .endInValue [])
  | g :: gs => do
    match ← start (g :: gs) with
    | (some a, r) => return (a, r)
    | (none, _) => throw (mismatch expected (g :: gs))

def text : Reader Document :=
  value "a string" fun p =>
    match p with
    | .char '"' :: r => do
      let (s, r) ← Quoted.scan r
      return (some (.text s), r)
    | _ => .ok (none, p)

def flag : Reader Document :=
  value "a boolean" fun p =>
    match p with
    | .char 't' :: r => do
      let r ← word "rue".toList r
      return (some (.flag true), r)
    | .char 'f' :: r => do
      let r ← word "alse".toList r
      return (some (.flag false), r)
    | _ => .ok (none, p)

def fit (n : Number) (r : Place) : Except Fault (Option Document × Place) :=
  match n with
  | .natural n =>
    if n < UInt32.size then .ok (some (.number n.toUInt32), r)
    else .error (.before (.mismatch (.value (Number.natural n).describe "u32")) r)
  | .negative n => .error (.before (.mismatch (.value (Number.negative n).describe "u32")) r)
  | .fraction x => .error (.before (.mismatch (.sort (Number.fraction x).describe "u32")) r)

def number : Reader Document :=
  value "u32" fun p =>
    match p with
    | .char '-' :: r => do
      let (n, r) ← Number.scan false r
      fit n r
    | g :: _ =>
      match Digit.value? g with
      | some _ => do
        let (n, r) ← Number.scan true p
        fit n r
      | none => .ok (none, p)
    | [] => .ok (none, p)

def colon (p : Place) : Except Fault Place :=
  match skip p with
  | [] => .error (.on .endInObject [])
  | .char ':' :: r => .ok r
  | q => .error (.on .expectedColon q)

def null : Reader PUnit :=
  value "unit" fun p =>
    match p with
    | .char 'n' :: r => do
      let r ← word "ull".toList r
      return (some ⟨⟩, r)
    | _ => .ok (none, p)

def known (words : List String) (s : String) (r : Place) : Except Fault Document :=
  if words.contains s then .ok (.text s)
  else .error (.behind (.mismatch (.unknownVariant s words)) r)

/-- the key of an object that has to have one -/
def onlyKey (p : Place) : Except Fault (String × Place) :=
  match skip p with
  | [] => .error (.on .endInObject [])
  | .char '"' :: r => Quoted.scan r
  | .char '\x7d' :: r => .error (.on .expectedValue (.char '\x7d' :: r))
  | q => .error (.on .keyNotString q)

/-- one of the words: a string, or an object with the word as its key and null as its value -/
def choice (words : List String) : Reader Document := fun p =>
  match skip p with
  | [] => .error (.on .endInValue [])
  | .char '\x7b' :: r => do
    let (s, r) ← onlyKey r
    let d ← known words s r
    let r ← colon r
    let (_, r) ← null r
    match skip r with
    | [] => throw (.behind .endInObject [])
    | .char '\x7d' :: r => return (d, r)
    | q => throw (.before .expectedValue q)
  | .char '"' :: r => do
    let (s, r) ← Quoted.scan r
    let d ← known words s r
    return (d, r)
  | q => .error (.on .expectedValue q)

/-- nothing for `null`, else what the reader gives -/
def field (reader : Reader Document) : Reader (Option Document) := fun p =>
  match skip p with
  | .char 'n' :: r => do
    let r ← word "ull".toList r
    return (none, r)
  | _ => do
    let (d, r) ← reader p
    return (some d, r)

def nextItem? (first : Bool) (p : Place) : Except Fault (Option Place) :=
  match skip p with
  | [] => .error (.on .endInList [])
  | .char ']' :: _ => .ok none
  | q =>
    if first then .ok (some q)
    else
      match q with
      | .char ',' :: r =>
        match skip r with
        | [] => .error (.on .endInValue [])
        | .char ']' :: r => .error (.on .trailingComma (.char ']' :: r))
        | q => .ok (some q)
      | _ => .error (.on .expectedListCommaOrEnd q)

/-- the end of a list; where the stream breaks off behind a comma, the comma is the fault -/
def listEnd (p : Place) : Except Fault Place :=
  match skip p with
  | [] => .error (.on .endInList [])
  | .char ']' :: r => .ok r
  | .char ',' :: r =>
    match skip r with
    | .char ']' :: r => .error (.on .trailingComma (.char ']' :: r))
    | [.lost text] => .error (.behind .trailingCharacters [.lost text])
    | q => .error (.on .trailingCharacters q)
  | q => .error (.on .trailingCharacters q)

def items (reader : Reader Document) : Nat → Bool → Reader (List Document)
  | 0, _, p => .error (.behind .endInList p)
  | fuel + 1, first, p => do
    match ← nextItem? first p with
    | none => return ([], p)
    | some q =>
      let (d, r) ← reader q
      let (ds, r) ← items reader fuel false r
      return (d :: ds, r)

def list (reader : Reader Document) : Reader Document :=
  value "a sequence" fun p =>
    match p with
    | .char '[' :: r => do
      let (ds, r) ← items reader (r.length + 1) true r
      let r ← listEnd r
      return (some (.list ds), r)
    | _ => .ok (none, p)

def nextKey? (first : Bool) (p : Place) : Except Fault (Option Place) :=
  match skip p with
  | [] => .error (.on .endInObject [])
  | .char '\x7d' :: _ => .ok none
  | .char ',' :: r =>
    if first then .error (.on .keyNotString (.char ',' :: r))
    else
      match skip r with
      | [] => .error (.on .endInValue [])
      | .char '"' :: r => .ok (some r)
      | .char '\x7d' :: r => .error (.on .trailingComma (.char '\x7d' :: r))
      | q => .error (.on .keyNotString q)
  | .char '"' :: r =>
    if first then .ok (some r) else .error (.on .expectedObjectCommaOrEnd (.char '"' :: r))
  | q => .error (.on (if first then .keyNotString else .expectedObjectCommaOrEnd) q)

def objectEnd (p : Place) : Except Fault Place :=
  match skip p with
  | [] => .error (.on .endInObject [])
  | .char '\x7d' :: r => .ok r
  | .char ',' :: r => .error (.on .trailingComma (.char ',' :: r))
  | q => .error (.on .trailingCharacters q)

/-- a fault of a key, which is reported where the object would be read on -/
def keyFault (cause : Cause) (p : Place) : Fault :=
  match skip p with
  | .char '\x7d' :: r => .behind cause r
  | [.lost text] => .behind cause [.lost text]
  | q => .before cause q

/-- the members of an object up to its end; `seen` are the keys before this place -/
def members (fields : List (String × Reader Document)) (seen : List String) :
    Nat → Bool → Reader (List (String × Document))
  | 0, _, p => .error (.behind .endInObject p)
  | fuel + 1, first, p => do
    match ← nextKey? first p with
    | none => return ([], p)
    | some q =>
      let (key, r) ← Quoted.scan q
      match fields.lookup key with
      | none => throw (keyFault (.mismatch (.unknownField key (fields.map (·.1)))) r)
      | some reader =>
        if seen.contains key then
          throw (keyFault (.mismatch (.duplicateField key)) r)
        let r ← colon r
        let (d?, r) ← field reader r
        let (ms, r) ← members fields (key :: seen) fuel false r
        match d? with
        | none => return (ms, r)
        | some d => return ((key, d) :: ms, r)

def values : List (String × Reader Document) → Bool → Reader (List (String × Document))
  | [], _, p => .ok ([], p)
  | (key, reader) :: fields, first, p => do
    match ← nextItem? first p with
    | none => return ([], p)
    | some q =>
      let (d?, r) ← field reader q
      let (ms, r) ← values fields false r
      match d? with
      | none => return (ms, r)
      | some d => return ((key, d) :: ms, r)

/-- a record: an object, or a list of the fields in order -/
def record (title : String) (fields : List (String × Reader Document)) : Reader Document :=
  value ("struct " ++ title) fun p =>
    match p with
    | .char '\x7b' :: r => do
      let (ms, r) ← members fields [] (r.length + 1) true r
      let r ← objectEnd r
      return (some (.record ms), r)
    | .char '[' :: r => do
      let (ms, r) ← values fields true r
      let r ← listEnd r
      return (some (.record ms), r)
    | _ => .ok (none, p)

end Reader

mutual

def shapeReader : Shape → Reader Document
  | .text => Reader.text
  | .number => Reader.number
  | .flag => Reader.flag
  | .choice words => Reader.choice words
  | .list item => Reader.list (shapeReader item)
  | .record title fields => Reader.record title (fieldReaders fields)

def fieldReaders : List (String × Shape) → List (String × Reader Document)
  | [] => []
  | (key, shape) :: fields => (key, shapeReader shape) :: fieldReaders fields

end

/-- the fault of a text, with its mark; a stream that breaks off outside the value has none -/
def Fault.toError (f : Fault) (source : Source) (whole : Place) : Error :=
  ⟨f.cause, some (f.mark source whole)⟩

/-- the document of a text that has this shape and nothing else around it but white space -/
def read (shape : Shape) (source : Source) (whole : Place) : Except Error Document :=
  match skip whole with
  | [.lost text] => .error ⟨.lost text, none⟩
  | _ =>
    match shapeReader shape whole with
    | .error f => .error (f.toError source whole)
    | .ok (d, r) =>
      match skip r with
      | [] => .ok d
      | [.lost text] => .error ⟨.lost text, none⟩
      | q => .error ((Fault.on .trailingCharacters q).toError source whole)

end MachineSpec.Json
