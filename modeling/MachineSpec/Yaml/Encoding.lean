import MachineSpec.Text.Utf8
import MachineSpec.Yaml.Fault

/-!
# Characters of a YAML text

The characters of a byte text that may stand in YAML.  Bytes are decoded block by block, and a block
as a whole before its first character is used, so a fault hides all characters of its block; only a
character that the end of the text cuts off hides nothing before it.

* `isAllowed`       may this character stand in a text
* `decodeChar`      the character at the front of a byte text
* `decodeBlock`     the characters of a block, and the bytes of one that goes on behind it
* `Characters`      characters, and the fault behind the last one if there is one
* `Characters.ofBytes`
-/

namespace MachineSpec.Yaml

def isAllowed (c : Char) : Bool :=
  let n := c.toNat
  n = 0x09 || n = 0x0A || n = 0x0D || (0x20 ≤ n && n ≤ 0x7E) || n = 0x85 ||
    (0xA0 ≤ n && n ≤ 0xD7FF) || (0xE000 ≤ n && n ≤ 0xFFFD) || 0x10000 ≤ n

/-- how many bytes the character has that starts with this byte, and its first bits -/
def leading? (b : UInt8) : Option (Nat × Nat) :=
  let n := b.toNat
  if n < 0x80 then some (1, n)
  else if n < 0xC0 then none
  else if n < 0xE0 then some (2, n - 0xC0)
  else if n < 0xF0 then some (3, n - 0xE0)
  else if n < 0xF8 then some (4, n - 0xF0)
  else none

/-- the smallest number that takes as many bytes -/
def least : Nat → Nat
  | 2 => 0x80
  | 3 => 0x800
  | 4 => 0x10000
  | _ => 0

/-- the number that further bytes of a character lead to; the first of them is at `offset` -/
def trailing (offset : Nat) : Nat → Bytes → Except Fault Nat
  | n, [] => .ok n
  | n, b :: bs =>
    match Utf8.tail? b with
    | some x => trailing (offset + 1) (n * 0x40 + x) bs
    | none => .error (.encoding .trailingByte offset)

/-- the character at the front of a byte text and the number of its bytes; none if there are too few
of them -/
def decodeChar (offset : Nat) (bs : Bytes) : Except Fault (Option (Char × Nat)) :=
  match bs with
  | [] => .ok none
  | b :: r =>
    match leading? b with
    | none => .error (.encoding .leadingByte offset)
    | some (size, bits) =>
      if r.length < size - 1 then .ok none
      else do
        let n ← trailing (offset + 1) bits (r.take (size - 1))
        if n < least size then throw (.encoding .length offset)
        if h : n.isValidChar then
          let c := Char.ofNatAux n h
          if isAllowed c then return some (c, size) else throw (.encoding .control offset)
        else throw (.encoding .noCharacter offset)

/-- the characters of a block, how many bytes they take, and the bytes behind them -/
def decodeBlock (offset : Nat) : Nat → Bytes → Except Fault (List Char × Nat × Bytes)
  | 0, bs => .ok ([], offset, bs)
  | fuel + 1, bs =>
    match decodeChar offset bs with
    | .error f => .error f
    | .ok none => .ok ([], offset, bs)
    | .ok (some (c, size)) => do
      let (cs, offset, rest) ← decodeBlock (offset + size) fuel (bs.drop size)
      return (c :: cs, offset, rest)

/-- characters, and the fault behind the last one if there is one -/
structure Characters where
  list : List Char
  fault? : Option Fault := none
  deriving Repr

namespace Characters

def blockSize : Nat := 16384

/-- the characters of blocks, with `carry` left over from the block before -/
def ofBlocks (offset : Nat) (carry : Bytes) : Nat → Bytes → Characters
  | 0, _ => ⟨[], none⟩
  | fuel + 1, bs =>
    let room := blockSize - carry.length
    let block := carry ++ bs.take room
    match decodeBlock offset (block.length + 1) block with
    | .error f => ⟨[], some f⟩
    | .ok (cs, offset, rest) =>
      match bs.drop room with
      | [] => ⟨cs, if rest.isEmpty then none else some (.encoding .incomplete offset)⟩
      | b :: t =>
        let behind := ofBlocks offset rest fuel (b :: t)
        ⟨cs ++ behind.list, behind.fault?⟩

def ofBytes (bs : Bytes) : Characters := ofBlocks 0 [] (bs.length + 1) bs

end Characters

end MachineSpec.Yaml
