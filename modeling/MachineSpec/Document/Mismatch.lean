/-!
# Mismatches

Why a value in a text does not have the shape that it should have.  Both notations of documents
report them in the same words.

* `alternatives`        names as they stand in a message
* `Mismatch`, `Mismatch.message`
-/

namespace MachineSpec

/-- names as alternatives -/
def alternatives : List String → String
  | [] => "nothing"
  | [a] => "`" ++ a ++ "`"
  | [a, b] => "`" ++ a ++ "` or `" ++ b ++ "`"
  | names => "one of " ++ ", ".intercalate (names.map fun n => "`" ++ n ++ "`")

/-- why a value does not have its shape: another sort of value, a value out of range, or a name that
is not one of those known or comes twice -/
inductive Mismatch where
  | sort (found expected : String)
  | value (found expected : String)
  | unknownField (name : String) (known : List String)
  | duplicateField (name : String)
  | unknownVariant (name : String) (known : List String)
  deriving DecidableEq, Repr

namespace Mismatch

def message : Mismatch → String
  | .sort found expected => "invalid type: " ++ found ++ ", expected " ++ expected
  | .value found expected => "invalid value: " ++ found ++ ", expected " ++ expected
  | .unknownField name known =>
    "unknown field `" ++ name ++ "`, expected " ++ alternatives known
  | .duplicateField name => "duplicate field `" ++ name ++ "`"
  | .unknownVariant name known =>
    "unknown variant `" ++ name ++ "`, expected " ++ alternatives known

end Mismatch

end MachineSpec
