/-!
# YAML faults

Why a text is no YAML, and where.  A fault of the encoding is reported by the number of bytes before
it; any other by line and column, together with what was being read and where that began.

* `Mark`                       a position: bytes, lines and columns before it
* `EncodingCause`, `Cause`     what is wrong
* `Setting`                    what was being read
* `Fault`, `Fault.message`
-/

namespace MachineSpec.Yaml

/-- a position: the index counts bytes, a column the characters of its line; lines and columns
count from zero -/
structure Mark where
  index : Nat
  line : Nat
  column : Nat
  deriving DecidableEq, Repr, Inhabited

namespace Mark

def start : Mark := ⟨0, 0, 0⟩

def isStart (m : Mark) : Bool := m.line = 0 && m.column = 0

/-- the wording of a position, which is left out at the very start -/
def suffix (m : Mark) : String :=
  if m.isStart then ""
  else " at line " ++ toString (m.line + 1) ++ " column " ++ toString (m.column + 1)

end Mark

inductive EncodingCause where
  | leadingByte
  | incomplete
  | trailingByte
  | length
  | noCharacter
  | control
  deriving DecidableEq, Repr

namespace EncodingCause

def message : EncodingCause → String
  | .leadingByte => "invalid leading UTF-8 octet"
  | .incomplete => "incomplete UTF-8 octet sequence"
  | .trailingByte => "invalid trailing UTF-8 octet"
  | .length => "invalid length of a UTF-8 sequence"
  | .noCharacter => "invalid Unicode character"
  | .control => "control characters are not allowed"

end EncodingCause

inductive Cause where
  | expectedColon
  | blockEntryNotAllowed
  | keyNotAllowed
  | valueNotAllowed
  | noToken
  | unknownDirective
  | expectedDirectiveName
  | expectedDirectiveEnd
  | expectedLineEnd
  | expectedVersionNumber
  | expectedVersionPoint
  | longVersionNumber
  | expectedBlank
  | expectedBlankOrBreak
  | expectedNameCharacter
  | expectedTagEnd
  | expectedTagStart
  | expectedTagText
  | expectedEscapedByte
  | escapedLeadingByte
  | escapedTrailingByte
  | zeroIndentation
  | tabAsIndentation
  | tabBeforeIndentation
  | documentIndicator
  | endOfText
  | unknownEscape
  | expectedHexDigit
  | escapedNoCharacter
  | unexpectedColon
  | expectedDocumentStart
  | undefinedTagHandle
  | expectedNode
  | expectedDash
  | expectedKey
  | expectedCommaOrBracket
  | expectedCommaOrBrace
  | duplicateVersion
  | incompatibleVersion
  | duplicateTagHandle
  | unknownAnchor
  deriving DecidableEq, Repr

namespace Cause

def message : Cause → String
  | .expectedColon => "could not find expected ':'"
  | .blockEntryNotAllowed => "block sequence entries are not allowed in this context"
  | .keyNotAllowed => "mapping keys are not allowed in this context"
  | .valueNotAllowed => "mapping values are not allowed in this context"
  | .noToken => "found character that cannot start any token"
  | .unknownDirective => "found unknown directive name"
  | .expectedDirectiveName => "could not find expected directive name"
  | .expectedDirectiveEnd => "found unexpected non-alphabetical character"
  | .expectedLineEnd => "did not find expected comment or line break"
  | .expectedVersionNumber => "did not find expected version number"
  | .expectedVersionPoint => "did not find expected digit or '.' character"
  | .longVersionNumber => "found extremely long version number"
  | .expectedBlank => "did not find expected whitespace"
  | .expectedBlankOrBreak => "did not find expected whitespace or line break"
  | .expectedNameCharacter => "did not find expected alphabetic or numeric character"
  | .expectedTagEnd => "did not find the expected '>'"
  | .expectedTagStart => "did not find expected '!'"
  | .expectedTagText => "did not find expected tag URI"
  | .expectedEscapedByte => "did not find URI escaped octet"
  | .escapedLeadingByte => "found an incorrect leading UTF-8 octet"
  | .escapedTrailingByte => "found an incorrect trailing UTF-8 octet"
  | .zeroIndentation => "found an indentation indicator equal to 0"
  | .tabAsIndentation => "found a tab character where an indentation space is expected"
  | .tabBeforeIndentation => "found a tab character that violates indentation"
  | .documentIndicator => "found unexpected document indicator"
  | .endOfText => "found unexpected end of stream"
  | .unknownEscape => "found unknown escape character"
  | .expectedHexDigit => "did not find expected hexadecimal number"
  | .escapedNoCharacter => "found invalid Unicode character escape code"
  | .unexpectedColon => "found unexpected ':'"
  | .expectedDocumentStart => "did not find expected <document start>"
  | .undefinedTagHandle => "found undefined tag handle"
  | .expectedNode => "did not find expected node content"
  | .expectedDash => "did not find expected '-' indicator"
  | .expectedKey => "did not find expected key"
  | .expectedCommaOrBracket => "did not find expected ',' or ']'"
  | .expectedCommaOrBrace => "did not find expected ',' or '\x7d'"
  | .duplicateVersion => "found duplicate %YAML directive"
  | .incompatibleVersion => "found incompatible YAML document"
  | .duplicateTagHandle => "found duplicate %TAG directive"
  | .unknownAnchor => "unknown anchor"

end Cause

inductive Setting where
  | simpleKey
  | nextToken
  | directive
  | versionDirective
  | tagDirective
  | tagDirectiveHandle
  | tagDirectiveHandleEnd
  | tagDirectiveText
  | anchor
  | alias
  | tag
  | tagText
  | blockScalar
  | quotedScalar
  | quotedEscape
  | plainScalar
  | node
  | blockNode
  | flowNode
  | blockCollection
  | blockMapping
  | flowSequence
  | flowMapping
  deriving DecidableEq, Repr

namespace Setting

def message : Setting → String
  | .simpleKey => "while scanning a simple key"
  | .nextToken => "while scanning for the next token"
  | .directive => "while scanning a directive"
  | .versionDirective => "while scanning a %YAML directive"
  | .tagDirective => "while scanning a %TAG directive"
  | .tagDirectiveHandle => "while scanning a tag directive"
  | .tagDirectiveHandleEnd => "while parsing a tag directive"
  | .tagDirectiveText => "while parsing a %TAG directive"
  | .anchor => "while scanning an anchor"
  | .alias => "while scanning an alias"
  | .tag => "while scanning a tag"
  | .tagText => "while parsing a tag"
  | .blockScalar => "while scanning a block scalar"
  | .quotedScalar => "while scanning a quoted scalar"
  | .quotedEscape => "while parsing a quoted scalar"
  | .plainScalar => "while scanning a plain scalar"
  | .node => "while parsing a node"
  | .blockNode => "while parsing a block node"
  | .flowNode => "while parsing a flow node"
  | .blockCollection => "while parsing a block collection"
  | .blockMapping => "while parsing a block mapping"
  | .flowSequence => "while parsing a flow sequence"
  | .flowMapping => "while parsing a flow mapping"

end Setting

/-- what is wrong and where, and perhaps what was being read and where that began -/
inductive Fault where
  | encoding (cause : EncodingCause) (offset : Nat)
  | form (cause : Cause) (mark : Mark) (setting? : Option (Setting × Mark))
  deriving DecidableEq, Repr

namespace Fault

/-- what was being read; its place is left out where it is the place of the fault -/
def settingText (mark : Mark) : Option (Setting × Mark) → String
  | none => ""
  | some (setting, start) =>
    let place :=
      if start.line = mark.line ∧ start.column = mark.column then "" else start.suffix
    ", " ++ setting.message ++ place

def message : Fault → String
  | .encoding cause offset =>
    cause.message ++ (if offset = 0 then "" else " at position " ++ toString offset)
  | .form cause mark setting? => cause.message ++ mark.suffix ++ settingText mark setting?

end Fault

end MachineSpec.Yaml
