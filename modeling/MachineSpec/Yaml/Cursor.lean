import MachineSpec.Yaml.Encoding

/-!
# Cursors

A cursor stands somewhere in a text: it has what is left of the text, and the position.  A text that
breaks off in a fault shows it to whoever asks for characters behind the last one.

* `isBlank`, `isBreak`, `isWord`    classes of characters
* `indicators`                      characters that start no scalar without quotes
* `Cursor`                          a place in a text
* `Cursor.need`                     asks for characters
* `Cursor.skip`, `skipBreak`        passes over characters
* `Cursor.takeWhile`                the characters of a class, and the place behind them
-/

namespace MachineSpec.Yaml

def isBlank (c : Char) : Bool := c = ' ' || c = '\t'

def isBreak (c : Char) : Bool :=
  c = '\n' || c = '\r' || c = '\u0085' || c = '\u2028' || c = '\u2029'

/-- a character of an anchor, or of the name of a directive or tag handle -/
def isWord (c : Char) : Bool := c.isAlphanum || c = '_' || c = '-'

/-- characters that start no scalar without quotes -/
def indicators : List Char :=
  ['#', ',', '[', ']', '\x7b', '\x7d', '&', '*', '!', '|', '>', '\'', '"', '%', '@', '\x60']

/-- characters that start no scalar without quotes if a blank follows them -/
def openIndicators : List Char := ['-', '?', ':']

def startsBlank : List Char → Bool
  | [] => true
  | c :: _ => isBlank c || isBreak c

def startsBreak : List Char → Bool
  | [] => true
  | c :: _ => isBreak c

/-- a place in a text, and the fault behind the last character if there is one -/
structure Cursor where
  rest : List Char
  mark : Mark
  fault? : Option Fault
  deriving Repr

namespace Cursor

def ofCharacters (cs : Characters) : Cursor := ⟨cs.list, .start, cs.fault?⟩

/-- asks for `n` characters; the end of the text is a character too -/
def need (n : Nat) (c : Cursor) : Except Fault Unit :=
  match c.fault? with
  | some f => if (c.rest.take n).length < n then .error f else .ok ()
  | none => .ok ()

/-- the place behind a character that is no line break -/
def skip (c : Cursor) : Cursor :=
  match c.rest with
  | [] => c
  | x :: r =>
    { c with rest := r, mark := ⟨c.mark.index + Utf8.size x, c.mark.line, c.mark.column + 1⟩ }

def widthOf (n : Nat) (cs : List Char) : Nat := (cs.take n).foldl (fun w x => w + Utf8.size x) 0

def advance (n : Nat) (c : Cursor) : Cursor :=
  { c with
    rest := c.rest.drop n
    mark := ⟨c.mark.index + widthOf n c.rest, c.mark.line, c.mark.column + n⟩ }

def skipBreak (c : Cursor) : Cursor :=
  match c.rest with
  | '\r' :: '\n' :: r => { c with rest := r, mark := ⟨c.mark.index + 2, c.mark.line + 1, 0⟩ }
  | x :: r => { c with rest := r, mark := ⟨c.mark.index + Utf8.size x, c.mark.line + 1, 0⟩ }
  | [] => c

/-- the text of a line break: a line feed, unless it is a separator of its own -/
def breakText (c : Cursor) : List Char :=
  match c.rest with
  | '\u2028' :: _ => ['\u2028']
  | '\u2029' :: _ => ['\u2029']
  | _ :: _ => ['\n']
  | [] => []

def takeWhile (p : Char → Bool) (c : Cursor) : Except Fault (List Char × Cursor) :=
  let run := c.rest.takeWhile p
  let c := c.advance run.length
  match c.need 1 with
  | .ok () => .ok (run, c)
  | .error f => .error f

def skipWhile (p : Char → Bool) (c : Cursor) : Except Fault Cursor := do
  return (← c.takeWhile p).2

/-- the place behind a comment, if one starts here -/
def skipComment (c : Cursor) : Except Fault Cursor :=
  match c.rest with
  | '#' :: _ => c.skipWhile fun x => !isBreak x
  | _ => .ok c

/-- does a line start here that begins or ends a document -/
def isDocumentIndicator (c : Cursor) : Bool :=
  c.mark.column = 0 &&
    match c.rest with
    | '-' :: '-' :: '-' :: r => startsBlank r
    | '.' :: '.' :: '.' :: r => startsBlank r
    | _ => false

def fault (c : Cursor) (cause : Cause) (setting : Setting) (start : Mark) : Fault :=
  .form cause c.mark (some (setting, start))

@[simp] theorem length_rest_skip (c : Cursor) : c.skip.rest.length = c.rest.length - 1 := by
  unfold skip
  split <;> simp_all

theorem length_rest_skipBreak_lt {c : Cursor} (h : c.rest ≠ []) :
    c.skipBreak.rest.length < c.rest.length := by
  unfold skipBreak
  split
  · next heq => simp only [heq, List.length_cons]; omega
  · next heq => simp [heq]
  · next heq => exact absurd heq h

end Cursor

end MachineSpec.Yaml
