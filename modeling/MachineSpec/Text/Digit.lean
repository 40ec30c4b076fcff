/-!
# Digits

Numbers as they are spelled in a base of up to thirty-six; letters of either case stand for the
values from ten on.

* `digit?`       the value of a digit
* `digitsFrom`   the number that digits go on to
-/

namespace MachineSpec.Text

def digit? (base : Nat) (c : Char) : Option Nat :=
  let v? :=
    if '0' ≤ c ∧ c ≤ '9' then some (c.toNat - '0'.toNat)
    else if 'a' ≤ c ∧ c ≤ 'z' then some (c.toNat - 'a'.toNat + 10)
    else if 'A' ≤ c ∧ c ≤ 'Z' then some (c.toNat - 'A'.toNat + 10)
    else none
  v?.filter (· < base)

/-- the number that digits go on to from `n` -/
def digitsFrom (base n : Nat) : List Char → Option Nat
  | [] => some n
  | c :: cs => (digit? base c).bind fun d => digitsFrom base (n * base + d) cs

end MachineSpec.Text
