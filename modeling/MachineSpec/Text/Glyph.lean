import MachineSpec.Text.Utf8

/-!
# Glyphs

What a reader meets in a byte stream, one unit at a time: a character, a byte that belongs to no
character, or the place where the stream broke off, with the reason.  A *place* in a text is the
list of glyphs from there on, so a reader carries no counter; `offset` recovers how many bytes lie
before a place.

* `Glyph.size`        bytes that a glyph takes
* `Glyph.ofBytes`     the glyphs of a byte text
* `Glyph.width`       bytes that a list of glyphs takes
* `Glyph.offset`      bytes before a place
-/

namespace MachineSpec

inductive Glyph where
  | char (c : Char)
  | stray (b : UInt8)
  | lost (text : String)
  deriving DecidableEq, Repr

namespace Glyph

def size : Glyph → Nat
  | .char c => Utf8.size c
  | .stray _ => 1
  | .lost _ => 0

def width (gs : List Glyph) : Nat := gs.foldl (fun n g => n + g.size) 0

/-- the glyphs of a byte text; a byte that starts no character stands alone -/
def ofBytes (bs : Bytes) : List Glyph :=
  match _h : bs with
  | [] => []
  | b :: t =>
    match _hn : Utf8.next bs with
    | some (c, r) => .char c :: ofBytes r
    | none => .stray b :: ofBytes t
termination_by bs.length
decreasing_by
  · subst _h
    exact Utf8.length_lt_of_next _hn
  · simp

/-- bytes before `place`, which is a tail of `whole` -/
def offset (whole place : List Glyph) : Nat := width whole - width place

end Glyph

end MachineSpec
