import MachineSpec.Document.Mismatch
import MachineSpec.Text.Glyph

/-!
# JSON faults

Why a text is no JSON, or not the JSON that was expected, and where.  A fault is reported by the
number of bytes read so far, and a stream may have read one byte further than a text at hand: it
cannot look at a byte without taking it.  A fault therefore keeps a place and how far past it the
report points, once for a text at hand and once for a stream.

* `Place`               the rest of the text
* `Cause`, `Cause.message`
* `Fault`               a cause, a place and the two distances
* `Fault.behind`, `before`, `on`, `past`   faults by how much of what stands there has been read
* `Source`              whether the text is at hand or comes from a stream
* `Mark`                line and column as JSON counts them: columns are bytes and start at zero
* `Fault.mark`          where a fault is reported
-/

namespace MachineSpec.Json

/-- a place in a text: what is left to read -/
abbrev Place := List Glyph

inductive Cause where
  | endInList
  | endInObject
  | endInString
  | endInValue
  | expectedColon
  | expectedListCommaOrEnd
  | expectedObjectCommaOrEnd
  | expectedIdent
  | expectedValue
  | invalidEscape
  | invalidNumber
  | numberOutOfRange
  | invalidCharacter
  | controlCharacter
  | keyNotString
  | loneSurrogate
  | trailingComma
  | trailingCharacters
  | unfinishedPair
  | mismatch (m : Mismatch)
  | lost (text : String)
  deriving DecidableEq, Repr

namespace Cause

def message : Cause → String
  | .endInList => "EOF while parsing a list"
  | .endInObject => "EOF while parsing an object"
  | .endInString => "EOF while parsing a string"
  | .endInValue => "EOF while parsing a value"
  | .expectedColon => "expected `:`"
  | .expectedListCommaOrEnd => "expected `,` or `]`"
  | .expectedObjectCommaOrEnd => "expected `,` or `\x7d`"
  | .expectedIdent => "expected ident"
  | .expectedValue => "expected value"
  | .invalidEscape => "invalid escape"
  | .invalidNumber => "invalid number"
  | .numberOutOfRange => "number out of range"
  | .invalidCharacter => "invalid unicode code point"
  | .controlCharacter => "control character (\\u0000-\\u001F) found while parsing a string"
  | .keyNotString => "key must be a string"
  | .loneSurrogate => "lone leading surrogate in hex escape"
  | .trailingComma => "trailing comma"
  | .trailingCharacters => "trailing characters"
  | .unfinishedPair => "unexpected end of hex escape"
  | .mismatch m => m.message
  | .lost text => text

end Cause

/-- whether a text is at hand or comes from a stream -/
inductive Source where
  | slice
  | stream
  deriving DecidableEq, Repr

/-- a cause at a place; a report points as many bytes past the place as have been read there -/
structure Fault where
  cause : Cause
  place : Place
  slice : Nat
  stream : Nat
  deriving Repr

/-- line and column: the column is the number of bytes before it in the line -/
structure Mark where
  line : Nat
  column : Nat
  deriving DecidableEq, Repr

namespace Mark

/-- the mark `n` bytes after `m`, where `gs` starts -/
def advance (m : Mark) : List Glyph → Nat → Mark
  | [], _ => m
  | g :: gs, n =>
    if n = 0 then m
    else if n < g.size then ⟨m.line, m.column + n⟩
    else if g = .char '\n' then advance ⟨m.line + 1, 0⟩ gs (n - 1)
    else advance ⟨m.line, m.column + g.size⟩ gs (n - g.size)

end Mark

namespace Fault

def make (cause : Cause) (place : Place) (slice stream : Nat) : Fault :=
  match place with
  | [.lost text] => ⟨.lost text, place, 0, 0⟩
  | _ => ⟨cause, place, slice, stream⟩

/-- what stands at the place has not been looked at -/
def behind (cause : Cause) (place : Place) : Fault := ⟨cause, place, 0, 0⟩

/-- what stands at the place has been looked at, and the report points before it -/
def before (cause : Cause) (place : Place) : Fault := make cause place 0 1

/-- what stands at the place has been looked at, and the report points after it -/
def on (cause : Cause) (place : Place) : Fault := make cause place 1 1

/-- the first `n` bytes at the place have been read -/
def past (cause : Cause) (place : Place) (n : Nat) : Fault := make cause place n n

def mark (f : Fault) (source : Source) (whole : Place) : Mark :=
  let ahead := match source with
    | .slice => f.slice
    | .stream => f.stream
  Mark.advance ⟨1, 0⟩ whole (Glyph.offset whole f.place + ahead)

end Fault

/-- a fault as it is reported: with its mark, unless the stream broke off outside the value -/
structure Error where
  cause : Cause
  mark : Option Mark
  deriving DecidableEq, Repr

namespace Error

def message (e : Error) : String :=
  match e.mark with
  | none => e.cause.message
  | some m =>
    e.cause.message ++ " at line " ++ toString m.line ++ " column " ++ toString m.column

end Error

end MachineSpec.Json
