import MachineSpec.Json.Fault
import MachineSpec.Markup.Error
import MachineSpec.Stream
import MachineSpec.Yaml.Error

/-!
# Errors

Why a specification could not be read or written.

* `ReadError`, `Error`         the errors
* `Error.message`              their wording
* `Error.code`, `help?`        the name of an error for programs, and advice for people
* `Error.isParse`, `isXml`, `unsupportedSelector?`   what kind of error it is
-/

namespace MachineSpec

/-- why bytes are no specification -/
inductive ReadError where
  | json (e : Json.Error)
  | yaml (e : Yaml.Error)
  | xml (e : Markup.Error)
  | stream (f : Stream.Failure)
  deriving DecidableEq, Repr

/-- why a specification could not be read or written -/
inductive Error where
  | parse (e : ReadError)
  | write (f : Stream.Failure)
  deriving DecidableEq, Repr

namespace ReadError

def message : ReadError → String
  | .json e => "parse error: json: " ++ e.message
  | .yaml e => "parse error: yaml: " ++ e.message
  | .xml e => "parse error: xml: " ++ e.message
  | .stream f => "parse error: read failed: " ++ f.text

end ReadError

namespace Markup.Error

/-- the name of an error for programs -/
def code : Markup.Error → String
  | .unsupportedSelector _ => "vmspec::unsupported_selector"
  | .unknownElement .. => "vmspec::xml::unknown_element"
  | .unknownAttribute .. => "vmspec::xml::unknown_attribute"
  | .unexpectedText _ => "vmspec::xml::unexpected_text"
  | .invalidValue .. => "vmspec::xml::invalid_value"
  | .ended => "vmspec::xml::unexpected_eof"
  | .notUtf8 => "vmspec::xml::encoding"
  | .malformed .. => "vmspec::xml::syntax"

def help? : Markup.Error → Option String
  | .unsupportedSelector _ =>
    some "The `by` attribute must name one of the entity's identifying fields."
  | .unknownElement .. => some "Unrecognized elements are rejected rather than ignored."
  | .unknownAttribute .. => some "Unrecognized attributes are rejected rather than ignored."
  | .unexpectedText _ => some "This element only holds child elements."
  | .ended => some "The document ended before its root element was closed."
  | .invalidValue .. | .notUtf8 | .malformed .. => none

end Markup.Error

namespace Error

def message : Error → String
  | .parse e => e.message
  | .write f => "write error: " ++ f.text

/-- the name of an error for programs -/
def code : Error → String
  | .parse (.json _) => "vmspec::parse::json"
  | .parse (.yaml _) => "vmspec::parse::yaml"
  | .parse (.xml e) => e.code
  | .parse (.stream _) => "vmspec::parse::read"
  | .write _ => "vmspec::write"

def help? : Error → Option String
  | .parse (.xml e) => e.help?
  | .parse _ => none
  | .write _ => some "The underlying writer rejected the encoded document."

def isParse : Error → Bool
  | .parse _ => true
  | .write _ => false

def isXml : Error → Bool
  | .parse (.xml _) => true
  | _ => false

def unsupportedSelector? : Error → Option UnsupportedSelector
  | .parse (.xml (.unsupportedSelector e)) => some e
  | _ => none

end Error

end MachineSpec
