import MachineSpec.Decimal.Notation
import MachineSpec.Json.Fault
import MachineSpec.Text.Digit

/-!
# JSON numbers

A number is an integer of 64 bits where it can be written as one, and a binary fraction otherwise.
A fraction is put together from its leading digits, as many as fit into 64 bits, and one power of
ten; that is quick and not always the nearest fraction.

* `Number`             an integer of either sign, or a fraction
* `Digit.run`          the digits at a place
* `Digit.absorb`       digits taken into a number while it fits
* `scale`              leading digits times a power of ten
* `Number.scan`        the number at a place
-/

namespace MachineSpec.Json

/-- an integer, by its sign, or a fraction -/
inductive Number where
  | natural (n : Nat)
  | negative (n : Nat)
  | fraction (x : Float)

namespace Number

def describe : Number → String
  | .natural n => "integer `" ++ toString n ++ "`"
  | .negative n => "integer `-" ++ toString n ++ "`"
  | .fraction x => "floating point `" ++ Notation.moderate.write x ++ "`"

end Number

namespace Digit

def value? : Glyph → Option Nat
  | .char c => Text.digit? 10 c
  | _ => none

def run : Place → List Nat × Place
  | [] => ([], [])
  | g :: gs =>
    match value? g with
    | some d => let (ds, r) := run gs; (d :: ds, r)
    | none => ([], g :: gs)

/-- digits taken into `n` while it stays at most `limit`; the number of those taken, and those
left over -/
def absorb (limit : Nat) : Nat → List Nat → Nat × Nat × List Nat
  | n, [] => (n, 0, [])
  | n, d :: ds =>
    if limit < n * 10 + d then (n, 0, d :: ds)
    else let (m, k, rest) := absorb limit (n * 10 + d) ds; (m, k + 1, rest)

end Digit

def wordLimit : Nat := UInt64.size - 1

def exponentLimit : Nat := Nat.pow 2 31 - 1

/-- ten to a power of at most 308 -/
def tenTo (n : Nat) : Float := Float.ofScientific 1 false n

/-- `x` divided by `10 ^ n`, at most 308 powers at a time; zero cannot get smaller -/
def scaleDown (x : Float) (n : Nat) : Float :=
  if h : n ≤ 308 then x / tenTo n
  else if x == 0.0 then x
  else scaleDown (x / tenTo 308) (n - 308)
termination_by n
decreasing_by omega

/-- leading digits times a power of ten; nothing where that has no bound -/
def scale (leading : Nat) (exponent : Int) : Option Float :=
  let x := leading.toUInt64.toFloat
  if exponent < 0 then some (scaleDown x (-exponent).toNat)
  else if exponent ≤ 308 then
    let y := x * tenTo exponent.toNat
    if y.isInf then none else some y
  else if x == 0.0 then some x
  else none

namespace Number

/-- the fraction of leading digits and an exponent; what stands at `r` has been looked at -/
def ofScale (positive : Bool) (leading : Nat) (exponent : Int) (r : Place) :
    Except Fault (Number × Place) :=
  match scale leading exponent with
  | none => .error (.before .numberOutOfRange r)
  | some x => .ok (.fraction (if positive then x else -x), r)

/-- an integer that has neither a point nor an exponent -/
def ofLeading (positive : Bool) (leading : Nat) : Number :=
  if positive then .natural leading
  else if leading = 0 ∨ Nat.pow 2 63 < leading then .fraction (-leading.toUInt64.toFloat)
  else .negative leading

/-- may a reader go on behind a number here; a stream that breaks off leaves the number open -/
def closed (r : Place) : Except Fault Unit :=
  match r with
  | .lost text :: _ => .error (.behind (.lost text) r)
  | _ => .ok ()

def scanExponent (positive : Bool) (leading : Nat) (exponent : Int) (p : Place) :
    Except Fault (Number × Place) := do
  let (up, p) ← match p with
    | .lost text :: _ => .error (.behind (.lost text) p)
    | .char '+' :: r => pure (true, r)
    | .char '-' :: r => pure (false, r)
    | _ => pure (true, p)
  match p with
  | [] => .error (.behind .endInValue p)
  | .lost text :: _ => .error (.behind (.lost text) p)
  | g :: gs =>
    match Digit.value? g with
    | none => .error (.past .invalidNumber p 1)
    | some d =>
      let (ds, r) := Digit.run gs
      match Digit.absorb exponentLimit d ds with
      | (e, _, []) => do
        closed r
        ofScale positive leading (if up then exponent + e else exponent - e) r
      | (_, taken, _ :: _) => do
        if leading ≠ 0 ∧ up then
          throw (.behind .numberOutOfRange (gs.drop (taken + 1)))
        closed r
        return (.fraction (if positive then 0.0 else -0.0), r)

/-- the digits behind the point, and an exponent if one follows -/
def scanFraction (positive : Bool) (leading : Nat) (exponent : Int) (p : Place) :
    Except Fault (Number × Place) := do
  let (ds, r) := Digit.run p
  closed r
  match ds with
  | [] => .error (.on (if r.isEmpty then .endInValue else .invalidNumber) r)
  | _ :: _ =>
    let (leading, taken, _) := Digit.absorb wordLimit leading ds
    let exponent := exponent - taken
    match r with
    | .char 'e' :: r => scanExponent positive leading exponent r
    | .char 'E' :: r => scanExponent positive leading exponent r
    | _ => ofScale positive leading exponent r

def scanRest (positive : Bool) (leading : Nat) (leftOver : List Nat) (p : Place) :
    Except Fault (Number × Place) := do
  closed p
  let exponent : Int := leftOver.length
  match p with
  | .char '.' :: r => scanFraction positive leading exponent r
  | .char 'e' :: r => scanExponent positive leading exponent r
  | .char 'E' :: r => scanExponent positive leading exponent r
  | _ =>
    if leftOver.isEmpty then pure (ofLeading positive leading, p)
    else ofScale positive leading exponent p

/-- the number at a place behind its sign -/
def scan (positive : Bool) (p : Place) : Except Fault (Number × Place) :=
  match p with
  | [] => .error (.behind .endInValue p)
  | .lost text :: _ => .error (.behind (.lost text) p)
  | g :: gs =>
    match Digit.value? g with
    | none => .error (.past .invalidNumber p 1)
    | some 0 =>
      match gs.head?.bind Digit.value? with
      | some _ => .error (.on .invalidNumber gs)
      | none => scanRest positive 0 [] gs
    | some d =>
      let (ds, r) := Digit.run gs
      let (leading, _, leftOver) := Digit.absorb wordLimit d ds
      scanRest positive leading leftOver r

end Number

end MachineSpec.Json
