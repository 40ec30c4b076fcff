import MachineSpec.Text.Digit
import MachineSpec.Yaml.Cursor

/-!
# Plain and quoted scalars

Scalars that run over lines as a paragraph does: the words of a line stay apart by their blanks, and
a single line break between two words is a space.

* `Gap`, `Gap.text`   blanks and line breaks between two words, and what they stand for
* `gap`               the gap at a place
* `Plain.scan`        a scalar without quotes
* `Quoted.scan`       a scalar between quotes
-/

namespace MachineSpec.Yaml

/-- blanks and line breaks between two words of a scalar -/
structure Gap where
  blanks : List Char := []
  first? : Option (List Char) := none
  more : List Char := []
  deriving DecidableEq, Repr

namespace Gap

/-- what a gap stands for: its blanks in a line; else a space for one line break, and for several
all but the first -/
def text (g : Gap) : List Char :=
  match g.first? with
  | none => g.blanks
  | some first =>
    if first = ['\n'] then (if g.more = [] then [' '] else g.more) else first ++ g.more

def breaksLine (g : Gap) : Bool := g.first?.isSome

def addBreak (g : Gap) (text : List Char) : Gap :=
  match g.first? with
  | none => { g with blanks := [], first? := some text }
  | some _ => { g with more := g.more ++ text }

end Gap

/-- the gap at a place, after what there is of it in `g`; blanks at the start of a line are none of
the text, and `refuse` may find fault with one -/
def gapFrom (refuse : Cursor → Option Fault) (g : Gap) (c : Cursor) :
    Except Fault (Gap × Cursor) :=
  match _h : c.rest with
  | [] => .ok (g, c)
  | x :: _ =>
    if isBlank x then
      match if g.breaksLine then refuse c else none with
      | some f => .error f
      | none => do
        c.skip.need 1
        gapFrom refuse (if g.breaksLine then g else { g with blanks := g.blanks ++ [x] }) c.skip
    else if isBreak x then do
      c.need 2
      c.skipBreak.need 1
      gapFrom refuse (g.addBreak c.breakText) c.skipBreak
    else .ok (g, c)
termination_by c.rest.length
decreasing_by
  · simp [_h]
  · exact Cursor.length_rest_skipBreak_lt (by simp [_h])

/-! ## without quotes -/

namespace Plain

/-- a scalar without quotes; `broken` says that a line break follows it -/
structure Result where
  text : List Char
  broken : Bool
  rest : Cursor

def flowIndicators : List Char := [',', '[', ']', '\x7b', '\x7d']

def run (flow : Bool) (start : Mark) (c : Cursor) : Except Fault (List Char × Cursor) :=
  match _h : c.rest with
  | [] => .ok ([], c)
  | x :: r =>
    if isBlank x || isBreak x then .ok ([], c)
    else if flow && x = ':' && (r.head?.any fun y => y = '?' || flowIndicators.contains y) then
      .error (c.fault .unexpectedColon .plainScalar start)
    else if x = ':' && startsBlank r || flow && flowIndicators.contains x then .ok ([], c)
    else do
      c.skip.need 2
      let (xs, d) ← run flow start c.skip
      return (x :: xs, d)
termination_by c.rest.length
decreasing_by simp [_h]

/-- a tab may not stand left of the margin -/
def refuseTab (margin : Nat) (start : Mark) (c : Cursor) : Option Fault :=
  if c.mark.column < margin ∧ c.rest.head? = some '\t' then
    some (c.fault .tabBeforeIndentation .plainScalar start)
  else none

/-- the scalar that goes on at a place; `gap` is what lies between it and the text so far -/
def scanFrom (flow : Bool) (margin : Nat) (start : Mark) (text : List Char) (gap : Gap) :
    Nat → Cursor → Except Fault Result
  | 0, c => .ok ⟨text, gap.breaksLine, c⟩
  | fuel + 1, c => do
    c.need 4
    if c.isDocumentIndicator || c.rest.head? = some '#' then return ⟨text, gap.breaksLine, c⟩
    let (xs, d) ← run flow start c
    let (text, gap) := if xs.isEmpty then (text, gap) else (text ++ gap.text ++ xs, ({} : Gap))
    match d.rest with
    | [] => return ⟨text, gap.breaksLine, d⟩
    | x :: _ =>
      if isBlank x || isBreak x then
        let (gap, e) ← gapFrom (refuseTab margin start) gap d
        if !flow && e.mark.column < margin then return ⟨text, gap.breaksLine, e⟩
        scanFrom flow margin start text gap fuel e
      else return ⟨text, gap.breaksLine, d⟩

def scan (flow : Bool) (margin : Nat) (c : Cursor) : Except Fault Result :=
  scanFrom flow margin c.mark [] {} (c.rest.length + 1) c

end Plain

/-! ## between quotes -/

namespace Quoted

/-- the character that a letter behind a backslash stands for -/
def escaped? (x : Char) : Option Char :=
  match x with
  | '0' => some '\x00'
  | 'a' => some '\x07'
  | 'b' => some '\x08'
  | 't' => some '\t'
  | '\t' => some '\t'
  | 'n' => some '\n'
  | 'v' => some '\x0b'
  | 'f' => some '\x0c'
  | 'r' => some '\r'
  | 'e' => some '\x1b'
  | ' ' => some ' '
  | '"' => some '"'
  | '/' => some '/'
  | '\\' => some '\\'
  | 'N' => some '\u0085'
  | '_' => some '\u00a0'
  | 'L' => some '\u2028'
  | 'P' => some '\u2029'
  | _ => none

/-- how many digits the number of a character has behind this letter -/
def codeLength? (x : Char) : Option Nat :=
  match x with
  | 'x' => some 2
  | 'u' => some 4
  | 'U' => some 8
  | _ => none

def numbered (start : Mark) (digits : Nat) (c : Cursor) : Except Fault (Char × Cursor) := do
  c.need digits
  let ds := c.rest.take digits
  match if ds.length = digits then Text.digitsFrom 16 0 ds else none with
  | none => throw (c.fault .expectedHexDigit .quotedEscape start)
  | some n =>
    if h : n.isValidChar then return (Char.ofNatAux n h, c.advance digits)
    else throw (c.fault .escapedNoCharacter .quotedEscape start)

def escape (start : Mark) (c : Cursor) : Except Fault (Char × Cursor) :=
  let unknown := c.fault .unknownEscape .quotedEscape start
  match c.rest with
  | _ :: x :: _ =>
    match escaped? x with
    | some y => .ok (y, c.advance 2)
    | none =>
      match codeLength? x with
      | some digits => numbered start digits (c.advance 2)
      | none => .error unknown
  | _ => .error unknown

def run (quote : Char) (start : Mark) : Nat → Cursor → Except Fault (List Char × Bool × Cursor)
  | 0, c => .ok ([], false, c)
  | fuel + 1, c =>
    match c.rest with
    | [] => .ok ([], false, c)
    | x :: r =>
      if isBlank x || isBreak x then .ok ([], false, c)
      else if x = quote then
        if quote = '\'' && r.head? = some '\'' then go (.ok ('\'', c.advance 2)) fuel
        else .ok ([], false, c)
      else if quote = '"' && x = '\\' then
        if r.head?.any isBreak then do
          c.need 3
          return ([], true, c.skip.skipBreak)
        else go (escape start c) fuel
      else go (.ok (x, c.skip)) fuel
where
  go (step : Except Fault (Char × Cursor)) (fuel : Nat) :
      Except Fault (List Char × Bool × Cursor) := do
    let (x, d) ← step
    d.need 2
    let (xs, broken, e) ← run quote start fuel d
    return (x :: xs, broken, e)

/-- the text that goes on at a place, and the place behind the closing quote -/
def scanFrom (quote : Char) (start : Mark) (text : List Char) :
    Nat → Cursor → Except Fault (List Char × Cursor)
  | 0, c => .ok (text, c)
  | fuel + 1, c => do
    c.need 4
    if c.isDocumentIndicator then throw (c.fault .documentIndicator .quotedScalar start)
    if c.rest.isEmpty then throw (c.fault .endOfText .quotedScalar start)
    let (xs, broken, d) ← run quote start (c.rest.length + 1) c
    d.need 1
    if d.rest.head? = some quote then return (text ++ xs, d.skip)
    let gap : Gap := { first? := if broken then some [] else none }
    let (gap, e) ← gapFrom (fun _ => none) gap d
    scanFrom quote start (text ++ xs ++ gap.text) fuel e

def scan (quote : Char) (c : Cursor) : Except Fault (List Char × Cursor) :=
  scanFrom quote c.mark [] (c.rest.length + 1) c.skip

end Quoted

end MachineSpec.Yaml
