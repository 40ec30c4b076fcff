import MachineSpec.Decimal.Notation
import MachineSpec.Text.Digit
import MachineSpec.Text.Quoted

/-!
# What words stand for

A scalar without quotes may be more than a text: nothing, a flag, an integer in one of four bases,
or a fraction.

* `Sense`                    what a word stands for
* `Sense.isNull`, `flag?`, `natural?`, `integer?`, `fraction?`   words of each sort
* `Sense.ofWord`             the sense of a word
* `Sense.describe`           how a message shows it
* `Sense.isAmbiguous`        may a word be taken for something else than its text
-/

namespace MachineSpec.Yaml

inductive Sense where
  | null
  | flag (b : Bool)
  | integer (n : Int)
  | fraction (x : Float)
  | text

namespace Sense

def isNull (s : String) : Bool := ["null", "Null", "NULL", "~"].contains s

def flag? (s : String) : Option Bool :=
  if ["true", "True", "TRUE"].contains s then some true
  else if ["false", "False", "FALSE"].contains s then some false
  else none

/-! ## integers -/

def digits? (base : Nat) (cs : List Char) : Option Nat :=
  if cs.isEmpty then none else Text.digitsFrom base 0 cs

def unsigned : List Char → List Char
  | '+' :: cs => cs
  | '-' :: cs => cs
  | cs => cs

/-- a number with a zero in front is none -/
def hasLeadingZero (cs : List Char) : Bool :=
  match unsigned cs with
  | '0' :: c :: ds => (c :: ds).all fun d => '0' ≤ d && d ≤ '9'
  | _ => false

/-- the value of digits with their base in front -/
def based? : List Char → Option Nat
  | '0' :: 'x' :: ds => digits? 16 ds
  | '0' :: 'o' :: ds => digits? 8 ds
  | '0' :: 'b' :: ds => digits? 2 ds
  | cs => if hasLeadingZero cs then none else digits? 10 cs

def natural? : List Char → Option Nat
  | '+' :: cs => based? cs
  | cs => based? cs

/-- an integer that fits into 128 bits -/
def integer? (cs : List Char) : Option Int :=
  match cs with
  | '-' :: ds =>
    match based? ds with
    | some n => if n ≤ Nat.pow 2 127 then some (-n) else none
    | none => none
  | _ =>
    match natural? cs with
    | some n => if n < Nat.pow 2 128 then some n else none
    | none => none

/-! ## fractions -/

/-- the digits that stand first, and what follows them -/
def run (cs : List Char) : List Char × List Char :=
  cs.span fun c => '0' ≤ c && c ≤ '9'

def sign : List Char → Bool × List Char
  | '-' :: cs => (true, cs)
  | '+' :: cs => (false, cs)
  | cs => (false, cs)

def exponent? : List Char → Option Int
  | [] => some 0
  | e :: cs =>
    if e = 'e' || e = 'E' then
      let (negative, ds) := sign cs
      (digits? 10 ds).map fun n => if negative then -(n : Int) else n
    else none

/-- `m · 10 ^ e`, or nothing where that has no bound -/
def scaled? (m : Nat) (e : Int) : Option Float :=
  let size : Int := (toString m).length + e
  if m = 0 || size < -400 then some 0.0
  else if size > 400 then none
  else
    let x := Float.ofScientific m (e < 0) e.natAbs
    if x.isInf then none else some x

/-- the number that digits, a point and an exponent stand for -/
def decimal? (cs : List Char) : Option Float :=
  let (negative, cs) := sign cs
  let (whole, cs) := run cs
  let (part, cs) := match cs with
    | '.' :: cs => run cs
    | _ => ([], cs)
  if whole.isEmpty && part.isEmpty then none
  else do
    let e ← exponent? cs
    let m ← digits? 10 (whole ++ part)
    let x ← scaled? m (e - part.length)
    return if negative then -x else x

/-- a fraction, or one of the words for what has no bound or is no number -/
def fraction? (s : String) : Option Float :=
  if [".inf", ".Inf", ".INF", "+.inf", "+.Inf", "+.INF"].contains s then some (1.0 / 0.0)
  else if ["-.inf", "-.Inf", "-.INF"].contains s then some (-1.0 / 0.0)
  else if [".nan", ".NaN", ".NAN"].contains s then some (0.0 / 0.0)
  else
    match s.toList with
    | '+' :: '+' :: _ => none
    | '+' :: '-' :: _ => none
    | cs => decimal? cs

/-! ## words -/

def ofWord (s : String) : Sense :=
  if s = "" || isNull s then .null
  else
    match flag? s with
    | some b => .flag b
    | none =>
      match integer? s.toList with
      | some n => .integer n
      | none =>
        if hasLeadingZero s.toList then .text
        else
          match fraction? s with
          | some x => .fraction x
          | none => .text

/-- how a message shows an integer: one that needs more than 64 bits is shown with its width -/
def describeInteger (n : Int) : String :=
  let word := "integer `" ++ toString n ++ "`"
  if n < -(Nat.pow 2 63 : Nat) then word ++ " as i128"
  else if n < UInt64.size then word
  else word ++ " as u128"

def describe (s : String) : Sense → String
  | .null => "unit value"
  | .flag b => "boolean `" ++ toString b ++ "`"
  | .integer n => describeInteger n
  | .fraction x => "floating point `" ++ Notation.plain.write x ++ "`"
  | .text => "string " ++ Text.quote s

/-- may a word be taken for something else than its text -/
def isAmbiguous (s : String) : Bool :=
  match ofWord s with
  | .text => hasLeadingZero s.toList
  | _ => true

end Sense

end MachineSpec.Yaml
