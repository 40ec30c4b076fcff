/-!
# Shortest decimals

The shortest decimal that reads back as a given binary64 number, and of several such decimals the
nearest one.  A finite number other than zero is `m * 2 ^ q`, and the decimals that read back as it
fill an interval around it, whose ends belong to it when `m` is even.

* `Binary64`                the number behind a bit pattern
* `Binary64.ofFloat`        reads the bit pattern
* `Neighbourhood`           what reads back as a number, over one common denominator
* `Decimal`                 digits and the power of ten of the first one
* `Binary64.shortest`       the shortest decimal of a number
-/

namespace MachineSpec

/-- `digits` read as a number whose first digit stands for `10 ^ exponent` -/
structure Decimal where
  digits : List Char
  exponent : Int
  deriving DecidableEq, Repr

/-- a binary64 number without its sign -/
inductive Binary64 where
  | zero
  | finite (m : Nat) (q : Int)
  | infinite
  | nan
  deriving DecidableEq, Repr

namespace Binary64

def ofBits (bits : Nat) : Binary64 :=
  let fraction : Nat := bits % Nat.pow 2 52
  let biased : Nat := bits / Nat.pow 2 52 % Nat.pow 2 11
  if biased = 2047 then if fraction = 0 then .infinite else .nan
  else if biased = 0 then if fraction = 0 then .zero else .finite fraction (-1074)
  else .finite (Nat.pow 2 52 + fraction) ((biased : Int) - 1075)

def ofFloat (x : Float) : Bool × Binary64 :=
  let bits := x.toBits.toNat
  (Nat.pow 2 63 ≤ bits, ofBits (bits % Nat.pow 2 63))

end Binary64

/-- the numbers `low / den` to `high / den` around `value / den`, with or without the two ends -/
structure Neighbourhood where
  low : Nat
  value : Nat
  high : Nat
  den : Nat
  closed : Bool

namespace Neighbourhood

/-- what reads back as `m * 2 ^ q`: up to half of the gap to each neighbour -/
def around (m : Nat) (q : Int) : Neighbourhood :=
  let below := if m = Nat.pow 2 52 ∧ -1074 < q then 1 else 2
  let up := Nat.pow 2 (q - 2).toNat
  ⟨(4 * m - below) * up, 4 * m * up, (4 * m + 2) * up, Nat.pow 2 (2 - q).toNat, m % 2 = 0⟩

def holds (i : Neighbourhood) (n : Nat) (e : Int) : Bool :=
  let x := n * Nat.pow 10 e.toNat * i.den
  let scale := Nat.pow 10 (-e).toNat
  if i.closed then i.low * scale ≤ x && x ≤ i.high * scale
  else i.low * scale < x && x < i.high * scale

/-- the distance of `n * 10 ^ e` from the value, times a factor that hangs on `e` alone -/
def distance (i : Neighbourhood) (n : Nat) (e : Int) : Nat :=
  let x := n * Nat.pow 10 e.toNat * i.den
  let v := i.value * Nat.pow 10 (-e).toNat
  (x - v) + (v - x)

/-- how many tens stand before the point of the value; zero or less for a value below one tenth -/
def magnitude (i : Neighbourhood) : Int :=
  if i.den ≤ i.value then (toString (i.value / i.den)).length
  else go 400 i.value 0
where
  go : Nat → Nat → Int → Int
    | 0, _, k => k
    | fuel + 1, v, k => if i.den ≤ v * 10 then k else go fuel (v * 10) (k - 1)

/-- of the two multiples of `10 ^ e` next to the value, the nearest that lies in the interval -/
def hit? (i : Neighbourhood) (e : Int) : Option Nat :=
  let n := i.value * Nat.pow 10 (-e).toNat / (i.den * Nat.pow 10 e.toNat)
  match i.holds n e, i.holds (n + 1) e with
  | false, false => none
  | true, false => some n
  | false, true => some (n + 1)
  | true, true =>
    let a := i.distance n e
    let b := i.distance (n + 1) e
    some (if a < b || (a = b && n % 2 = 0) then n else n + 1)

/-- the first number of digits, of those in `lengths`, with a hit -/
def firstHit (i : Neighbourhood) : List Nat → Option (Nat × Int)
  | [] => none
  | k :: ks =>
    let e := i.magnitude - k
    match i.hit? e with
    | some n => some (n, e)
    | none => firstHit i ks

end Neighbourhood

/-- the digits of `n`, without zeros at the end, when `n` counts multiples of `10 ^ e` -/
def Decimal.ofScaled (n : Nat) (e : Int) : Decimal :=
  let ds := (toString n).toList
  let short := (ds.reverse.dropWhile (· = '0')).reverse
  ⟨short, e + ds.length - 1⟩

/-- the shortest decimal that reads back as `m * 2 ^ q` -/
def Decimal.shortest (m : Nat) (q : Int) : Decimal :=
  match (Neighbourhood.around m q).firstHit (List.range' 1 17) with
  | some (n, e) => Decimal.ofScaled n e
  | none => ⟨['0'], 0⟩

end MachineSpec
