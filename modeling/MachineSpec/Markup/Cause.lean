import MachineSpec.Text.Quoted

/-!
# Markup faults

What can be wrong with the form of a markup text, in words.  Positions inside a message count bytes
from the start of the tag or of the text that it is about.

* `NumberFault`   why a character reference has no number
* `Cause`         what is wrong
* `Cause.message`
-/

namespace MachineSpec.Markup

/-- why the digits of a character reference are no number of a character -/
inductive NumberFault where
  | sign
  | empty
  | digit
  | large
  | zero
  | noCharacter (code : Nat)
  deriving DecidableEq, Repr

namespace NumberFault

def message : NumberFault → String
  | .sign => "unexpected number sign"
  | .empty => "cannot parse integer from empty string"
  | .digit => "invalid digit found in string"
  | .large => "number too large to fit in target type"
  | .zero => "0x0 character is not permitted in XML"
  | .noCharacter code => "`" ++ toString code ++ "` is not a valid codepoint"

end NumberFault

inductive AttributeFault where
  | expectedEquals
  | expectedValue
  | unquotedValue
  | unclosedValue (quote : Char)
  | duplicate (previous : Nat)
  deriving DecidableEq, Repr

namespace AttributeFault

def message : AttributeFault → String
  | .expectedEquals => "attribute key must be directly followed by `=` or space"
  | .expectedValue => "`=` must be followed by an attribute value"
  | .unquotedValue => "attribute value must be enclosed in `\"` or `'`"
  | .unclosedValue quote => "missing closing quote `" ++ quote.toString ++ "` in attribute value"
  | .duplicate previous =>
    "duplicated attribute, previous declaration at position " ++ toString previous

end AttributeFault

inductive Cause where
  | unclosedTag
  | unclosedInstruction
  | unclosedComment
  | unclosedLiteral
  | unclosedDoctype
  | unknownMarkup
  | doctypeWithoutName
  | otherEndTag (expected found : String)
  | unmatchedEndTag (found : String)
  | attribute (position : Nat) (fault : AttributeFault)
  | unendedReference (start stop : Nat)
  | unknownEntity (start stop : Nat) (name : String)
  | characterReference (fault : NumberFault)
  deriving DecidableEq, Repr

namespace Cause

def unclosed (construct stop : String) : String :=
  construct ++ " not closed: `" ++ stop ++ "` not found before end of input"

def message : Cause → String
  | .unclosedTag => "syntax error: " ++ unclosed "tag" ">"
  | .unclosedInstruction =>
    "syntax error: " ++ unclosed "processing instruction or xml declaration" "?>"
  | .unclosedComment => "syntax error: " ++ unclosed "comment" "-->"
  | .unclosedLiteral => "syntax error: " ++ unclosed "CDATA" "]]>"
  | .unclosedDoctype => "syntax error: " ++ unclosed "DOCTYPE" ">"
  | .unknownMarkup => "syntax error: unknown or missed symbol in markup"
  | .doctypeWithoutName =>
    "ill-formed document: `<!DOCTYPE>` declaration does not contain a name of a document type"
  | .otherEndTag expected found =>
    "ill-formed document: expected `</" ++ expected ++ ">`, but `</" ++ found ++ ">` was found"
  | .unmatchedEndTag found =>
    "ill-formed document: close tag `</" ++ found ++ ">` does not match any open tag"
  | .attribute position fault =>
    "error while parsing attribute: position " ++ toString position ++ ": " ++ fault.message
  | .unendedReference start stop =>
    "Error while escaping character at range " ++ toString start ++ ".." ++ toString stop ++
      ": Cannot find ';' after '&'"
  | .unknownEntity start stop name =>
    "at " ++ toString start ++ ".." ++ toString stop ++ ": unrecognized entity `" ++ name ++ "`"
  | .characterReference fault => "invalid character reference: " ++ fault.message

end Cause

end MachineSpec.Markup
