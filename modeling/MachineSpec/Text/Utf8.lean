/-!
# UTF-8

Byte texts and the characters they stand for.

* `encodeChar`, `encode`   the bytes of a character and of a text
* `next`                   the character that a byte text starts with, if its first bytes are one
* `decode?`                the characters of a byte text that is UTF-8 throughout

Only the shortest form of a character counts, and a surrogate is no character: `next` checks the
number it has put together against the range its length is for.
-/

namespace MachineSpec

abbrev Bytes := List UInt8

namespace Utf8

def byte (n : Nat) : UInt8 := UInt8.ofNat n

def encodeChar (c : Char) : Bytes :=
  let n := c.toNat
  if n < 0x80 then [byte n]
  else if n < 0x800 then [byte (0xC0 + n / 0x40), byte (0x80 + n % 0x40)]
  else if n < 0x10000 then
    [byte (0xE0 + n / 0x1000), byte (0x80 + n / 0x40 % 0x40), byte (0x80 + n % 0x40)]
  else
    [byte (0xF0 + n / 0x40000), byte (0x80 + n / 0x1000 % 0x40), byte (0x80 + n / 0x40 % 0x40),
      byte (0x80 + n % 0x40)]

def encodeList (cs : List Char) : Bytes := cs.flatMap encodeChar

def encode (s : String) : Bytes := encodeList s.toList

theorem encodeList_nil : encodeList [] = [] := rfl

theorem encodeList_cons (c : Char) (cs : List Char) :
    encodeList (c :: cs) = encodeChar c ++ encodeList cs := rfl

theorem encodeList_append (a b : List Char) :
    encodeList (a ++ b) = encodeList a ++ encodeList b := by
  simp [encodeList, List.flatMap_append]

def size (c : Char) : Nat := (encodeChar c).length

/-- the last six bits of a byte that continues a character -/
def tail? (b : UInt8) : Option Nat :=
  if 0x80 ≤ b.toNat ∧ b.toNat < 0xC0 then some (b.toNat - 0x80) else none

/-- the character with number `n`, if `n` is at least `least` and a character's number -/
def scalar? (least n : Nat) : Option Char :=
  if h : n.isValidChar then if least ≤ n then some (Char.ofNatAux n h) else none else none

/-- the character at the front of a byte text and what follows it -/
def next : Bytes → Option (Char × Bytes)
  | [] => none
  | a :: r =>
    if a.toNat < 0x80 then (scalar? 0 a.toNat).map (·, r)
    else if a.toNat < 0xC0 then none
    else if a.toNat < 0xE0 then
      match r with
      | b :: r => do
        let y ← tail? b
        let c ← scalar? 0x80 ((a.toNat - 0xC0) * 0x40 + y)
        return (c, r)
      | _ => none
    else if a.toNat < 0xF0 then
      match r with
      | b :: c :: r => do
        let y ← tail? b
        let z ← tail? c
        let c ← scalar? 0x800 ((a.toNat - 0xE0) * 0x1000 + y * 0x40 + z)
        return (c, r)
      | _ => none
    else
      match r with
      | b :: c :: d :: r => do
        let x ← tail? b
        let y ← tail? c
        let z ← tail? d
        let c ← scalar? 0x10000 ((a.toNat - 0xF0) * 0x40000 + x * 0x1000 + y * 0x40 + z)
        return (c, r)
      | _ => none

/-- a character takes at least one byte -/
theorem length_lt_of_next {bs r : Bytes} {c : Char} (h : next bs = some (c, r)) :
    r.length < bs.length := by
  unfold next at h
  split at h
  · simp at h
  · split at h
    · simp only [Option.map_eq_some_iff, Prod.mk.injEq] at h
      obtain ⟨_, _, _, rfl⟩ := h
      simp
    · split at h
      · simp at h
      · split at h
        · split at h
          · simp only [Option.bind_eq_bind, Option.bind_eq_some_iff, Option.pure_def,
              Option.some.injEq, Prod.mk.injEq] at h
            obtain ⟨_, _, _, _, _, rfl⟩ := h
            simp only [List.length_cons]; omega
          · simp at h
        · split at h
          · split at h
            · simp only [Option.bind_eq_bind, Option.bind_eq_some_iff, Option.pure_def,
                Option.some.injEq, Prod.mk.injEq] at h
              obtain ⟨_, _, _, _, _, _, _, rfl⟩ := h
              simp only [List.length_cons]; omega
            · simp at h
          · split at h
            · simp only [Option.bind_eq_bind, Option.bind_eq_some_iff, Option.pure_def,
                Option.some.injEq, Prod.mk.injEq] at h
              obtain ⟨_, _, _, _, _, _, _, _, _, rfl⟩ := h
              simp only [List.length_cons]; omega
            · simp at h

/-- the characters of a byte text, or nothing if some byte of it is not UTF-8 -/
def decode? (bs : Bytes) : Option (List Char) :=
  match _h : bs with
  | [] => some []
  | _ :: _ =>
    match _hn : next bs with
    | none => none
    | some (c, r) => (decode? r).map (c :: ·)
termination_by bs.length
decreasing_by
  subst _h
  exact length_lt_of_next _hn

end Utf8

end MachineSpec
