import MachineSpec.Yaml.Cursor

/-!
# Block scalars

Scalars that are lines with a common indentation.  A literal scalar keeps its line breaks; a folded
one joins lines that start at the indentation.  A header may fix the indentation, and say whether
line breaks at the end are kept.

* `Chomp`              what happens to line breaks at the end
* `Header`, `header`   what stands behind the indicator
* `leading`            empty lines, and the indentation of the first line that is not
* `scan`               a block scalar
-/

namespace MachineSpec.Yaml.BlockScalar

/-- what happens to line breaks at the end: none is kept, one, or all -/
inductive Chomp where
  | strip
  | clip
  | keep
  deriving DecidableEq, Repr

/-- what stands behind the indicator: what to do at the end, and how far lines are indented -/
structure Header where
  chomp : Chomp := .clip
  increment? : Option Nat := none
  deriving DecidableEq, Repr

def chomp? (c : Cursor) : Option Chomp :=
  match c.rest with
  | '+' :: _ => some .keep
  | '-' :: _ => some .strip
  | _ => none

def increment (start : Mark) (c : Cursor) : Except Fault (Option Nat × Cursor) :=
  match c.rest with
  | x :: _ =>
    if x = '0' then .error (c.fault .zeroIndentation .blockScalar start)
    else if x.isDigit then .ok (some (x.toNat - '0'.toNat), c.skip)
    else .ok (none, c)
  | [] => .ok (none, c)

/-- the header behind the indicator, in either order -/
def header (start : Mark) (c : Cursor) : Except Fault (Header × Cursor) := do
  c.need 1
  match chomp? c with
  | some chomp =>
    c.skip.need 1
    let (n?, d) ← increment start c.skip
    return (⟨chomp, n?⟩, d)
  | none =>
    let (n?, d) ← increment start c
    match n? with
    | none => return (⟨.clip, none⟩, d)
    | some _ =>
      d.need 1
      match chomp? d with
      | some chomp => return (⟨chomp, n?⟩, d.skip)
      | none => return (⟨.clip, n?⟩, d)

/-- the rest of the line of the header, and the start of the next line -/
def headerEnd (start : Mark) (c : Cursor) : Except Fault Cursor := do
  c.need 1
  let c ← c.skipWhile isBlank
  let c ← c.skipComment
  match c.rest with
  | [] => return c
  | x :: _ =>
    if isBreak x then
      c.need 2
      return c.skipBreak
    else throw (c.fault .expectedLineEnd .blockScalar start)

def indentation (indent? : Option Nat) (c : Cursor) : Nat :=
  let spaces := (c.rest.takeWhile (· = ' ')).length
  match indent? with
  | none => spaces
  | some n => min spaces (n - c.mark.column)

/-- empty lines, and the indentation: where it is not known it is that of the deepest line so far,
but at least that of the block -/
def leadingFrom (start : Mark) (margin : Nat) (indent? : Option Nat) (deepest : Nat)
    (breaks : List Char) : Nat → Cursor → Except Fault (List Char × Nat × Cursor)
  | 0, c => .ok (breaks, indent?.getD (max 1 margin), c)
  | fuel + 1, c => do
    c.need 1
    let c := c.advance (indentation indent? c)
    c.need 1
    let deepest := max deepest c.mark.column
    let inside := indent?.all fun n => c.mark.column < n
    match c.rest with
    | [] => return (breaks, indent?.getD (max 1 (max margin deepest)), c)
    | x :: _ =>
      if inside && x = '\t' then throw (c.fault .tabAsIndentation .blockScalar start)
      if isBreak x then
        c.need 2
        leadingFrom start margin indent? deepest (breaks ++ c.breakText) fuel c.skipBreak
      else return (breaks, indent?.getD (max 1 (max margin deepest)), c)

/-- empty lines, the indentation, and the place where a line goes on behind it -/
def leading (start : Mark) (margin : Nat) (indent? : Option Nat) (c : Cursor) :
    Except Fault (List Char × Nat × Cursor) :=
  leadingFrom start margin indent? 0 [] (c.rest.length + 1) c

/-- the text of lines so far: what is behind, the break of the last line, the empty lines after it,
and whether it started with a blank -/
structure Lines where
  text : List Char := []
  lastBreak : List Char := []
  empty : List Char := []
  blank : Bool := false

namespace Lines

/-- the text before a line that starts with a blank, or with none -/
def joined (literal : Bool) (l : Lines) (blank : Bool) : List Char :=
  if !literal && l.lastBreak = ['\n'] && !l.blank && !blank then
    l.text ++ (if l.empty = [] then [' '] else l.empty)
  else l.text ++ l.lastBreak ++ l.empty

def chomped (l : Lines) : Chomp → List Char
  | .strip => l.text
  | .clip => l.text ++ l.lastBreak
  | .keep => l.text ++ l.lastBreak ++ l.empty

end Lines

def lines (literal : Bool) (start : Mark) (margin indent : Nat) (l : Lines) :
    Nat → Cursor → Except Fault (Lines × Cursor)
  | 0, c => .ok (l, c)
  | fuel + 1, c => do
    c.need 1
    match c.rest with
    | [] => return (l, c)
    | x :: _ =>
      if c.mark.column = indent then
        let before := l.joined literal (isBlank x)
        let (line, d) ← c.takeWhile fun y => !isBreak y
        d.need 2
        let (empty, _, e) ← leading start margin (some indent) d.skipBreak
        lines literal start margin indent ⟨before ++ line, d.breakText, empty, isBlank x⟩ fuel e
      else return (l, c)

def scan (literal : Bool) (margin : Nat) (c : Cursor) : Except Fault (List Char × Cursor) := do
  let start := c.mark
  let (header, d) ← header start c.skip
  let d ← headerEnd start d
  let indent? := header.increment?.map fun n => margin - 1 + n
  let (empty, indent, d) ← leading start margin indent? d
  let (l, d) ← lines literal start margin indent { empty } (d.rest.length + 1) d
  return (l.chomped header.chomp, d)

end MachineSpec.Yaml.BlockScalar
