import MachineSpec.Markup.Cause
import MachineSpec.Text.Digit
import MachineSpec.Text.Utf8

/-!
# Escaped text

Text inside markup.  Five characters are written as entities; reading also takes the number of a
character, in base ten or sixteen.

* `entities`    the named characters
* `escape`      a text as it stands in markup
* `unescape`    the text that a piece of markup stands for
-/

namespace MachineSpec.Markup

def entities : List (String × Char) :=
  [("lt", '<'), ("gt", '>'), ("amp", '&'), ("apos", '\''), ("quot", '"')]

/-! ## writing -/

/-- one character as it stands in markup -/
def escapeChar (c : Char) : List Char :=
  match entities.find? fun e => e.2 = c with
  | some (name, _) => '&' :: (name.toList ++ [';'])
  | none => [c]

def escapeList (cs : List Char) : List Char := cs.flatMap escapeChar

def escape (s : String) : String := String.ofList (escapeList s.toList)

/-! ## reading -/

/-- the number that digits go on to from `n`; numbers have 32 bits -/
def numberFrom (base : Nat) : Nat → List Char → Except NumberFault Nat
  | n, [] => .ok n
  | n, c :: cs =>
    match Text.digit? base c with
    | none => .error .digit
    | some d =>
      if n * base + d < UInt32.size then numberFrom base (n * base + d) cs else .error .large

def number (base : Nat) (cs : List Char) : Except NumberFault Nat :=
  match cs with
  | [] => .error .empty
  | '+' :: _ => .error .sign
  | '-' :: _ => .error .sign
  | cs => numberFrom base 0 cs

/-- the character that a number sign and digits stand for -/
def numbered (cs : List Char) : Except NumberFault Char := do
  let n ← match cs with
    | 'x' :: cs => number 16 cs
    | cs => number 10 cs
  if n = 0 then throw .zero
  if h : n.isValidChar then return Char.ofNatAux n h
  throw (.noCharacter n)

def width (cs : List Char) : Nat := (Utf8.encodeList cs).length

/-- the character of the name between an ampersand and a semicolon; the name is at byte `start` -/
def named (start : Nat) (name : List Char) : Except Cause Char :=
  match name with
  | '#' :: cs =>
    match numbered cs with
    | .ok c => .ok c
    | .error fault => .error (.characterReference fault)
  | _ =>
    match entities.lookup (String.ofList name) with
    | some c => .ok c
    | none => .error (.unknownEntity start (start + width name) (String.ofList name))

def stops (c : Char) : Bool := c = '&' || c = ';'

/-- the text that markup stands for, where `start` bytes are already behind -/
def unescapeFrom (start : Nat) (cs : List Char) : Except Cause (List Char) :=
  match cs with
  | [] => .ok []
  | '&' :: r =>
    let name := r.takeWhile fun c => !stops c
    match _h : r.dropWhile fun c => !stops c with
    | ';' :: t => do
      let c ← named (start + 1) name
      let cs ← unescapeFrom (start + 1 + width name + 1) t
      return c :: cs
    | _ => .error (.unendedReference start (start + width cs))
  | c :: r => do
    let cs ← unescapeFrom (start + Utf8.size c) r
    return c :: cs
termination_by cs.length
decreasing_by
  · have := (List.dropWhile_sublist (l := r) fun c => !stops c).length_le
    rw [_h] at this
    simp at this ⊢
    omega
  · simp

def unescape (cs : List Char) : Except Cause String := String.ofList <$> unescapeFrom 0 cs

end MachineSpec.Markup
