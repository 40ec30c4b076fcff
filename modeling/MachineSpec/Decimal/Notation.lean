import MachineSpec.Decimal.Shortest

/-!
# Decimal notations

How a number is written out.  The digits are those of the shortest decimal; a notation decides
where the point goes and when an exponent is used instead.

* `Decimal.positional`   digits with a point and zeros as far as needed
* `Decimal.scientific`   one digit before the point and an exponent with its sign
* `Notation`             the range of exponents that is written positionally
* `Notation.write`       a float in a notation
-/

namespace MachineSpec

namespace Decimal

/-- the digits with a point, and with at least one digit on each side of it -/
def positional (d : Decimal) : List Char :=
  let n := d.digits.length
  if d.exponent < 0 then
    '0' :: '.' :: (List.replicate (-d.exponent - 1).toNat '0' ++ d.digits)
  else
    let whole := (d.exponent + 1).toNat
    if n ≤ whole then d.digits ++ List.replicate (whole - n) '0' ++ ['.', '0']
    else d.digits.take whole ++ '.' :: d.digits.drop whole

/-- an exponent with its sign -/
def exponentText (e : Int) : List Char :=
  (if e < 0 then '-' else '+') :: (toString e.natAbs).toList

/-- one digit, the others behind a point, and the exponent -/
def scientific (d : Decimal) : List Char :=
  match d.digits with
  | [] => []
  | [c] => c :: 'e' :: exponentText d.exponent
  | c :: cs => c :: '.' :: (cs ++ 'e' :: exponentText d.exponent)

end Decimal

/-- which exponents are written positionally -/
structure Notation where
  isPositional : Int → Bool

namespace Notation

def moderate : Notation := ⟨fun e => -5 ≤ e && e ≤ 15⟩

def plain : Notation := ⟨fun _ => true⟩

/-- a float in the notation -/
def write (style : Notation) (x : Float) : String :=
  let (negative, b) := Binary64.ofFloat x
  let sign := if negative then "-" else ""
  match b with
  | .nan => "NaN"
  | .infinite => sign ++ "inf"
  | .zero => sign ++ "0.0"
  | .finite m q =>
    let d := Decimal.shortest m q
    sign ++ String.ofList (if style.isPositional d.exponent then d.positional else d.scientific)

end Notation

end MachineSpec
