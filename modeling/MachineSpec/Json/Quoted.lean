import MachineSpec.Json.Fault
import MachineSpec.Text.Digit

/-!
# JSON strings

A string stands between double quotes.  A quote, a backslash and the controls below the space are
written with a backslash; every other character stands for itself.  Reading also takes the number of
a character, which is split in two where it has more than four digits.

* `Quoted.write`      a text in quotes
* `Quoted.piece`      the next character of a string, a byte that is none, or its end
* `Quoted.scan`       a string behind its opening quote
-/

namespace MachineSpec.Json.Quoted

/-! ## writing -/

/-- the letter that names a control behind a backslash -/
def controlLetter? (c : Char) : Option Char :=
  if c = '\x08' then some 'b'
  else if c = '\t' then some 't'
  else if c = '\n' then some 'n'
  else if c = '\x0c' then some 'f'
  else if c = '\r' then some 'r'
  else none

def writeChar (c : Char) : List Char :=
  if c = '"' then ['\\', '"']
  else if c = '\\' then ['\\', '\\']
  else if c.toNat < 0x20 then
    match controlLetter? c with
    | some l => ['\\', l]
    | none => ['\\', 'u', '0', '0', Nat.digitChar (c.toNat / 16), Nat.digitChar (c.toNat % 16)]
  else [c]

def write (s : String) : String := String.ofList ('"' :: (s.toList.flatMap writeChar ++ ['"']))

/-! ## reading -/

def hexValue? : Glyph → Option Nat
  | .char c => Text.digit? 16 c
  | _ => none

/-- where a text ends: its end, or the place where the stream broke off -/
def endOf (p : Place) : Place :=
  p.filter fun g => match g with
    | .lost _ => true
    | _ => false

/-- why four bytes are no number -/
def hexFault (p : Place) : Fault :=
  if Glyph.width p < 4 then .before .endInString (endOf p) else .past .invalidEscape p 4

def hex4 (p : Place) : Except Fault (Nat × Place) :=
  match p with
  | a :: b :: c :: d :: r =>
    match hexValue? a, hexValue? b, hexValue? c, hexValue? d with
    | some a, some b, some c, some d => .ok (((a * 16 + b) * 16 + c) * 16 + d, r)
    | _, _, _, _ => .error (hexFault p)
  | _ => .error (hexFault p)

/-- the second half of a number that is split in two, behind the first half `high` -/
def secondHalf (high : Nat) (p : Place) : Except Fault (Char × Place) :=
  match p with
  | [] => .error (.behind .endInString p)
  | .char '\\' :: q =>
    match q with
    | [] => .error (.behind .endInString q)
    | .char 'u' :: q =>
      match hex4 q with
      | .error f => .error f
      | .ok (low, r) =>
        if 0xDC00 ≤ low ∧ low ≤ 0xDFFF then
          .ok (Char.ofNat (0x10000 + (high - 0xD800) * 0x400 + (low - 0xDC00)), r)
        else .error (.behind .loneSurrogate r)
    | _ => .error (.past .unfinishedPair q 1)
  | _ => .error (.past .unfinishedPair p 1)

/-- the character with the number at a place -/
def numbered (p : Place) : Except Fault (Char × Place) :=
  match hex4 p with
  | .error f => .error f
  | .ok (n, r) =>
    if 0xDC00 ≤ n ∧ n ≤ 0xDFFF then .error (.behind .loneSurrogate r)
    else if 0xD800 ≤ n ∧ n ≤ 0xDBFF then secondHalf n r
    else .ok (Char.ofNat n, r)

def escaped? (c : Char) : Option Char :=
  if c = '"' ∨ c = '\\' ∨ c = '/' then some c
  else if c = 'b' then some '\x08'
  else if c = 'f' then some '\x0c'
  else if c = 'n' then some '\n'
  else if c = 'r' then some '\r'
  else if c = 't' then some '\t'
  else none

def escape (p : Place) : Except Fault (Char × Place) :=
  match p with
  | [] => .error (.behind .endInString p)
  | .char 'u' :: r => numbered r
  | .char c :: r =>
    match escaped? c with
    | some c => .ok (c, r)
    | none => .error (.past .invalidEscape p 1)
  | _ => .error (.past .invalidEscape p 1)

inductive Piece where
  | char (c : Char)
  | stray
  | close

def piece (p : Place) : Except Fault (Piece × Place) :=
  match p with
  | [] => .error (.behind .endInString p)
  | .lost text :: _ => .error (.behind (.lost text) p)
  | .stray _ :: r => .ok (.stray, r)
  | .char c :: r =>
    if c = '"' then .ok (.close, r)
    else if c = '\\' then (fun (c, r) => (.char c, r)) <$> escape r
    else if c.toNat < 0x20 then .error (.past .controlCharacter p 1)
    else .ok (.char c, r)

/-- the fault of a string with a byte that is no character, in front of `rest`: at `stray` stands
the first such byte, and `n` is how many bytes the string stands for from there on.  It is reported
as many bytes before the end of the string, which is right behind that byte unless there are
escapes further on. -/
def strayFault (stray rest : Place) (n : Nat) : Fault :=
  .past .invalidCharacter stray (Glyph.width stray - Glyph.width rest - n)

/-- a string behind its opening quote; a byte that is no character is reported at its end.  The
place of the first one is kept, and how many bytes the string stands for from there on. -/
def scanFrom (stray? : Option (Place × Nat)) :
    Nat → Place → Except Fault (List Char × Place)
  | 0, p => .error (.behind .endInString p)
  | fuel + 1, p => do
    match ← piece p with
    | (.close, r) =>
      match stray? with
      | some (q, n) => throw (strayFault q r n)
      | none => return ([], r)
    | (.stray, r) =>
      let (q, n) := stray?.getD (p, 0)
      scanFrom (some (q, n + 1)) fuel r
    | (.char c, r) =>
      let (cs, r) ← scanFrom (stray?.map fun (q, n) => (q, n + Utf8.size c)) fuel r
      return (c :: cs, r)

def scan (p : Place) : Except Fault (String × Place) := do
  let (cs, r) ← scanFrom none (p.length + 1) p
  return (String.ofList cs, r)

end MachineSpec.Json.Quoted
