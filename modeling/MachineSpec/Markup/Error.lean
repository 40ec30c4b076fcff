import MachineSpec.Markup.Element
import MachineSpec.Reference.Basic
import MachineSpec.Text.Position

/-!
# Markup errors

Why a markup text is no specification: what it holds is not what belongs there, or its form is
broken at a place, which is then reported by offset, line and column.

* `Error`             the error
* `Error.message`     its wording
* `Error.ofFailure`   the error of a text whose form is broken
-/

namespace MachineSpec.Markup

inductive Error where
  | unsupportedSelector (e : UnsupportedSelector)
  | unknownElement (parent element : String)
  | unknownAttribute (element key : String)
  | unexpectedText (element : String)
  | invalidValue (element value expected : String)
  | ended
  | notUtf8
  | malformed (cause : Cause) (offset : Nat) (position : Position)
  deriving DecidableEq, Repr

namespace Error

def message : Error → String
  | .unsupportedSelector e => e.message
  | .unknownElement parent element => "unknown element <" ++ element ++ "> in <" ++ parent ++ ">"
  | .unknownAttribute element key =>
    "unknown attribute " ++ Text.quote key ++ " on <" ++ element ++ ">"
  | .unexpectedText element => "unexpected text in <" ++ element ++ ">"
  | .invalidValue element value expected =>
    "invalid value " ++ Text.quote value ++ " in <" ++ element ++ ">, expected " ++ expected
  | .ended => "unexpected end of input"
  | .notUtf8 => "input is not valid UTF-8"
  | .malformed cause _ position =>
    "malformed markup at line " ++ toString position.line ++ ", column " ++
      toString position.column ++ ": " ++ cause.message

/-- the error of a text whose form is broken; the mark before its first character does not count in
the offset -/
def ofFailure (source : List Char) : Failure → Error
  | .ended => .ended
  | .malformed cause place =>
    let offset := width (Element.unmarked source) - width place
    .malformed cause offset (Position.ofOffset source offset)

end Error

end MachineSpec.Markup
