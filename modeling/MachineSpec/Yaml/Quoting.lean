import MachineSpec.Yaml.Cursor
import MachineSpec.Yaml.Sense
import MachineSpec.Yaml.Token

/-!
# Writing scalars

A text is written as plainly as it can be: a text of several lines as a block, a text that might be
taken for something else in single quotes, any other without quotes.  Characters that these forms
cannot hold make it fall back to single quotes, and in the end to double quotes, which hold all.

* `isPrintable`         characters that stand for themselves
* `canBePlain`, `canBeSingle`, `canBeBlock`   which forms can hold a text
* `styleOf`             the form of a text
* `Quoting.write`       a text in its form
-/

namespace MachineSpec.Yaml

def isPrintable (c : Char) : Bool :=
  let n := c.toNat
  n = 0x0A || 0x20 ≤ n && n ≤ 0x7E || 0xA0 ≤ n && n ≤ 0xD7FF ||
    0xE000 ≤ n && n ≤ 0xFFFD && n ≠ 0xFEFF || 0x10000 ≤ n

namespace Quoting

/-! ## which forms can hold a text -/

/-- two neighbours, the first of one class and the second of another -/
def hasPair (p q : Char → Bool) : List Char → Bool
  | x :: y :: r => p x && q y || hasPair p q (y :: r)
  | _ => false

def isSpace (c : Char) : Bool := c = ' '

/-- characters that are no part of a text without quotes at its start -/
def startsIndicator : List Char → Bool
  | [] => false
  | x :: r =>
    indicators.contains x || openIndicators.contains x && startsBlank r

/-- a colon before a blank, or a number sign behind one -/
def hasIndicator : List Char → Bool
  | x :: y :: r =>
    y = ':' && startsBlank r || (isBlank x || isBreak x) && y = '#' || hasIndicator (y :: r)
  | _ => false

def startsDocumentIndicator : List Char → Bool
  | '-' :: '-' :: '-' :: _ => true
  | '.' :: '.' :: '.' :: _ => true
  | _ => false

/-- can single quotes hold a text: white space around line breaks would be lost -/
def canBeSingle (s : List Char) : Bool :=
  s.all isPrintable && !hasPair isBreak isSpace s && !hasPair isSpace isBreak s

/-- can a block hold a text: spaces at the end of a line would be lost -/
def canBeBlock (s : List Char) : Bool :=
  s.all isPrintable && !hasPair isSpace isBreak s && !(s.getLast?.any isSpace)

def canBePlain (s : List Char) : Bool :=
  s.all isPrintable && !s.any isBreak && !(s.head?.any isSpace) && !(s.getLast?.any isSpace) &&
    !startsIndicator s && !hasIndicator s && !startsDocumentIndicator s

def styleOf (s : List Char) : Style :=
  if s.contains '\n' then if canBeBlock s then .literal else .double
  else if canBePlain s && !Sense.isAmbiguous (String.ofList s) then .plain
  else if canBeSingle s then .single
  else .double

/-! ## the forms -/

def pad (indent : Nat) : List Char := List.replicate indent ' '

def hexDigit (n : Nat) : Char := (Nat.digitChar n).toUpper

def hex (width n : Nat) : List Char :=
  match width with
  | 0 => []
  | w + 1 => hex w (n / 16) ++ [hexDigit (n % 16)]

def letters : List (Char × Char) :=
  [('\x00', '0'), ('\x07', 'a'), ('\x08', 'b'), ('\t', 't'), ('\n', 'n'), ('\x0B', 'v'),
    ('\x0C', 'f'), ('\r', 'r'), ('\x1B', 'e'), ('"', '"'), ('\\', '\\'), ('\u0085', 'N'),
    ('\u2028', 'L'), ('\u2029', 'P')]

def escapeChar (c : Char) : List Char :=
  if isPrintable c && !isBreak c && c ≠ '"' && c ≠ '\\' then [c]
  else
    match letters.lookup c with
    | some x => ['\\', x]
    | none =>
      if c.toNat ≤ 0xFF then '\\' :: 'x' :: hex 2 c.toNat
      else if c.toNat ≤ 0xFFFF then '\\' :: 'u' :: hex 4 c.toNat
      else '\\' :: 'U' :: hex 8 c.toNat

def double (s : List Char) : List Char := '"' :: (s.flatMap escapeChar ++ ['"'])

/-- what stands behind the opening quote: a quote is written twice, and what follows line breaks is
indented -/
def singleFrom (indent : Nat) (broken : Bool) : List Char → List Char
  | [] => (if broken then pad indent else []) ++ ['\'']
  | c :: cs =>
    if isBreak c then c :: singleFrom indent true cs
    else
      (if broken then pad indent else []) ++
        (if c = '\'' then ['\'', '\''] else [c]) ++ singleFrom indent false cs

def single (indent : Nat) (s : List Char) : List Char := '\'' :: singleFrom indent false s

/-- the sign that says what becomes of the line breaks at the end of a block -/
def chomping (s : List Char) : List Char :=
  match s.reverse with
  | [] => ['-']
  | x :: r => if !isBreak x then ['-'] else if startsBreak r then ['+'] else []

def blockFrom (indent : Nat) (broken : Bool) : List Char → List Char
  | [] => if broken then [] else ['\n']
  | c :: cs =>
    if isBreak c then c :: blockFrom indent true cs
    else (if broken then pad indent else []) ++ c :: blockFrom indent false cs

/-- a text as a block; its indentation is said where the text itself starts with white space -/
def block (indent : Nat) (s : List Char) : List Char :=
  '|' :: ((if s.head?.any fun c => isSpace c || isBreak c then ['2'] else []) ++
    chomping s ++ '\n' :: blockFrom indent true s)

/-- a text in its form, up to the end of its last line; further lines are indented -/
def write (indent : Nat) (s : List Char) : List Char :=
  match styleOf s with
  | .plain => s ++ ['\n']
  | .single => single indent s ++ ['\n']
  | .double => double s ++ ['\n']
  | .literal | .folded => block indent s

end Quoting

end MachineSpec.Yaml
