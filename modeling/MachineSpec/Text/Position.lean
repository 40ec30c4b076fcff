import MachineSpec.Text.Utf8

/-!
# Positions

The line and the column of a byte offset in a text.  Both count from one, and a column counts
characters.  An offset inside a character belongs to the end of that character, and an offset past
the end to the end of the text.

* `Position.step`       the position after one more character
* `Position.walk`       the position after a list of characters
* `Position.ofOffset`   the position of a byte offset
* `Position.behind`, `Position.IsAt`   the position told without walking: by what stands before it
* `Position.IsBoundary`   an offset between two characters
* `p < q`               `p` comes before `q` in reading order
-/

namespace MachineSpec

structure Position where
  line : Nat
  column : Nat
  deriving DecidableEq, Repr

namespace Position

/-- reading order: on an earlier line, or further left on the same one -/
instance : LT Position where
  lt p q := p.line < q.line ∨ p.line = q.line ∧ p.column < q.column

instance : DecidableLT Position := fun p q =>
  inferInstanceAs (Decidable (p.line < q.line ∨ p.line = q.line ∧ p.column < q.column))

def start : Position := ⟨1, 1⟩

def step (p : Position) (c : Char) : Position :=
  if c = '\n' then ⟨p.line + 1, 1⟩ else ⟨p.line, p.column + 1⟩

def walk (p : Position) (cs : List Char) : Position := cs.foldl step p

theorem walk_cons (p : Position) (c : Char) (cs : List Char) :
    p.walk (c :: cs) = (p.step c).walk cs := rfl

theorem walk_append (p : Position) (a b : List Char) : p.walk (a ++ b) = (p.walk a).walk b := by
  simp [walk, List.foldl_append]

/-- the position `offset` bytes after `p`, where `cs` starts -/
def advance (p : Position) : List Char → Nat → Position
  | [], _ => p
  | c :: cs, offset => if offset = 0 then p else (p.step c).advance cs (offset - Utf8.size c)

/-- the position of a byte offset in a text -/
def ofOffset (text : List Char) (offset : Nat) : Position := start.advance text offset

/-- the position behind a text: its ended lines, and the characters since the last of them -/
def behind (cs : List Char) : Position :=
  ⟨1 + cs.count '\n', 1 + (cs.reverse.takeWhile (· ≠ '\n')).length⟩

/-- `offset` lies in the text and between two characters -/
def IsBoundary (text : List Char) (offset : Nat) : Prop :=
  ∃ front rest, text = front ++ rest ∧ offset = (Utf8.encodeList front).length

/-- `offset` lies in the text and between two characters, and this is its position -/
def IsAt (p : Position) (text : List Char) (offset : Nat) : Prop :=
  ∃ front rest, text = front ++ rest ∧ offset = (Utf8.encodeList front).length ∧ p = behind front

end Position

end MachineSpec
