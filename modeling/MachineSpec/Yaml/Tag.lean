import MachineSpec.Yaml.FlowScalar

/-!
# Anchors, tags and directives

Names that stand before a node, and lines that stand before a document.

* `scanName`             the name behind the sign of an anchor or alias
* `Tag`                  a tag as it is written: a handle, and bytes
* `Tag.scan`             a tag
* `Directive`            a line before a document
* `Directive.scan`       a directive
-/

namespace MachineSpec.Yaml

/-! ## anchors -/

/-- characters that may stand right behind the name of an anchor -/
def endsName : List Char → Bool
  | [] => true
  | x :: _ => isBlank x || isBreak x || ['?', ':', ',', ']', '\x7d', '%', '@', '\x60'].contains x

/-- the name behind the sign that stands here, and the place behind it -/
def scanName (setting : Setting) (c : Cursor) : Except Fault (String × Cursor) := do
  let start := c.mark
  c.skip.need 1
  let (name, d) ← c.skip.takeWhile isWord
  if name.isEmpty || !endsName d.rest then throw (d.fault .expectedNameCharacter setting start)
  return (String.ofList name, d)

/-! ## tags -/

/-- a tag as it is written: the handle that stands for its first part, and the bytes of the rest -/
structure Tag where
  handle : String
  bytes : Bytes
  deriving DecidableEq, Repr

namespace Tag

def isCharacter (verbatim : Bool) (x : Char) : Bool :=
  isWord x || ";/?:@&=+$.%!~*'()".toList.contains x ||
    verbatim && [',', '[', ']'].contains x

/-- the byte that is written here as a percent sign and two digits -/
def escapedByte? (c : Cursor) : Option Nat :=
  match c.rest with
  | '%' :: a :: b :: _ => Text.digitsFrom 16 0 [a, b]
  | _ => none

def escapedTail (setting : Setting) (start : Mark) : Nat → Cursor → Except Fault (Bytes × Cursor)
  | 0, c => .ok ([], c)
  | n + 1, c => do
    c.need 3
    match escapedByte? c with
    | none => throw (c.fault .expectedEscapedByte setting start)
    | some b =>
      if 0x80 ≤ b ∧ b < 0xC0 then
        let (bs, d) ← escapedTail setting start n (c.advance 3)
        return (Utf8.byte b :: bs, d)
      else throw (c.fault .escapedTrailingByte setting start)

def escaped (setting : Setting) (start : Mark) (c : Cursor) : Except Fault (Bytes × Cursor) := do
  c.need 3
  match escapedByte? c with
  | none => throw (c.fault .expectedEscapedByte setting start)
  | some b =>
    match leading? (Utf8.byte b) with
    | none => throw (c.fault .escapedLeadingByte setting start)
    | some (size, _) =>
      let (bs, d) ← escapedTail setting start (size - 1) (c.advance 3)
      return (Utf8.byte b :: bs, d)

def bytesFrom (verbatim : Bool) (setting : Setting) (start : Mark) :
    Nat → Cursor → Except Fault (Bytes × Cursor)
  | 0, c => .ok ([], c)
  | fuel + 1, c =>
    match c.rest with
    | [] => .ok ([], c)
    | x :: _ =>
      if isCharacter verbatim x then do
        let (bs, d) ← if x = '%' then escaped setting start c else .ok (Utf8.encodeChar x, c.skip)
        d.need 1
        let (more, e) ← bytesFrom verbatim setting start fuel d
        return (bs ++ more, e)
      else .ok ([], c)

/-- the bytes of a tag, of which one has to be written unless something stands before them; those
from the first zero on do not count -/
def scanBytes (verbatim : Bool) (setting : Setting) (start : Mark) (mayBeEmpty : Bool)
    (c : Cursor) : Except Fault (Bytes × Cursor) := do
  c.need 1
  let (bs, d) ← bytesFrom verbatim setting start (c.rest.length + 1) c
  let none := c.rest.length = d.rest.length
  if none && !mayBeEmpty then throw (d.fault .expectedTagText setting start)
  return (bs.takeWhile (· ≠ 0), d)

/-- an exclamation mark with a word behind it, and another mark if one follows -/
def scanHandle (setting : Setting) (start : Mark) (c : Cursor) :
    Except Fault (List Char × Cursor) := do
  c.need 1
  if c.rest.head? ≠ some '!' then throw (c.fault .expectedTagStart setting start)
  c.skip.need 1
  let (word, d) ← c.skip.takeWhile isWord
  if d.rest.head? = some '!' then
    return ('!' :: (word ++ ['!']), d.skip)
  return ('!' :: word, d)

def isClosedHandle (handle : List Char) : Bool :=
  2 ≤ handle.length && handle.getLast? = some '!'

def scanVerbatim (start : Mark) (c : Cursor) : Except Fault (Tag × Cursor) := do
  let (bs, d) ← scanBytes true .tagText start false (c.advance 2)
  d.need 1
  if d.rest.head? ≠ some '>' then throw (d.fault .expectedTagEnd .tag start)
  return (⟨"", bs⟩, d.skip)

/-- a tag with a handle; a lone mark is a tag without a handle -/
def scanShort (start : Mark) (c : Cursor) : Except Fault (Tag × Cursor) := do
  let (handle, d) ← scanHandle .tag start c
  if isClosedHandle handle then
    let (bs, d) ← scanBytes false .tagText start false d
    return (⟨String.ofList handle, bs⟩, d)
  let (bs, d) ← scanBytes false .tagText start true d
  let bs := Utf8.encodeList (handle.drop 1) ++ bs
  return (if bs.isEmpty then ⟨"", Utf8.encode "!"⟩ else ⟨"!", bs⟩, d)

/-- the tag that starts here, and the place behind it -/
def scan (flow : Bool) (c : Cursor) : Except Fault (Tag × Cursor) := do
  let start := c.mark
  c.need 2
  let (tag, d) ← match c.rest with
    | _ :: '<' :: _ => scanVerbatim start c
    | _ => scanShort start c
  d.need 1
  if startsBlank d.rest || flow && d.rest.head? = some ',' then return (tag, d)
  throw (d.fault .expectedBlankOrBreak .tag start)

end Tag

/-! ## directives -/

inductive Directive where
  | version (major minor : Nat)
  | tag (handle : String) (bytes : Bytes)
  deriving DecidableEq, Repr

namespace Directive

/-- a number of a version, with nine digits at most -/
def versionNumberFrom (start : Mark) (digits value : Nat) :
    Nat → Cursor → Except Fault (Nat × Cursor)
  | 0, c => .ok (value, c)
  | fuel + 1, c =>
    match c.rest with
    | x :: _ =>
      if x.isDigit then
        if digits = 9 then .error (c.fault .longVersionNumber .versionDirective start)
        else do
          c.skip.need 1
          versionNumberFrom start (digits + 1) (value * 10 + (x.toNat - '0'.toNat)) fuel c.skip
      else .ok (value, c)
    | [] => .ok (value, c)

def versionNumber (start : Mark) (c : Cursor) : Except Fault (Nat × Cursor) := do
  c.need 1
  let (n, d) ← versionNumberFrom start 0 0 (c.rest.length + 1) c
  if d.rest.length = c.rest.length then
    throw (d.fault .expectedVersionNumber .versionDirective start)
  return (n, d)

def scanVersion (start : Mark) (c : Cursor) : Except Fault (Directive × Cursor) := do
  let d ← c.skipWhile isBlank
  let (major, d) ← versionNumber start d
  if d.rest.head? ≠ some '.' then throw (d.fault .expectedVersionPoint .versionDirective start)
  let (minor, d) ← versionNumber start d.skip
  return (.version major minor, d)

def scanTagText (start : Mark) (c : Cursor) : Except Fault (Directive × Cursor) := do
  let d ← c.skipWhile isBlank
  let (handle, d) ← Tag.scanHandle .tagDirectiveHandle start d
  if handle ≠ ['!'] && handle.getLast? ≠ some '!' then
    throw (d.fault .expectedTagStart .tagDirectiveHandleEnd start)
  d.need 1
  if !(d.rest.head?.any isBlank) then throw (d.fault .expectedBlank .tagDirective start)
  let d ← d.skipWhile isBlank
  let (bs, d) ← Tag.scanBytes true .tagDirectiveText start false d
  d.need 1
  if !startsBlank d.rest then throw (d.fault .expectedBlankOrBreak .tagDirective start)
  return (.tag (String.ofList handle) bs, d)

def scanDirectiveName (start : Mark) (c : Cursor) : Except Fault (List Char × Cursor) := do
  c.need 1
  let (name, d) ← c.takeWhile isWord
  if name.isEmpty then throw (d.fault .expectedDirectiveName .directive start)
  if !startsBlank d.rest then throw (d.fault .expectedDirectiveEnd .directive start)
  return (name, d)

/-- the directive whose percent sign stands here, and the start of the next line -/
def scan (c : Cursor) : Except Fault (Directive × Cursor) := do
  let start := c.mark
  let (name, d) ← scanDirectiveName start c.skip
  let (directive, d) ←
    if name = "YAML".toList then scanVersion start d
    else if name = "TAG".toList then scanTagText start d
    else throw (d.fault .unknownDirective .directive start)
  d.need 1
  let d ← d.skipWhile isBlank
  let d ← d.skipComment
  match d.rest with
  | [] => return (directive, d)
  | x :: _ =>
    if isBreak x then
      d.need 2
      return (directive, d.skipBreak)
    else throw (d.fault .expectedLineEnd .directive start)

end Directive

end MachineSpec.Yaml
