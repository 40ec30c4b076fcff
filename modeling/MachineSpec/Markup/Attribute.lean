import MachineSpec.Markup.Escape

/-!
# Attributes

The inside of a tag: a name and, behind it, attributes with quoted values.  Blanks may stand around
the equals sign and need not stand between two attributes.

* `isSpace`          a blank inside a tag
* `tagName`          the name that a tag starts with
* `Attribute.next`   the next attribute of a tag, its value still escaped
* `attributes`       the attributes of a tag
-/

namespace MachineSpec.Markup

def isSpace (c : Char) : Bool := c = ' ' || c = '\t' || c = '\r' || c = '\n'

def tagName (tag : List Char) : List Char := tag.takeWhile fun c => !isSpace c

def tagRest (tag : List Char) : List Char := tag.dropWhile fun c => !isSpace c

namespace Attribute

/-- does a key end before this character -/
def endsKey (c : Char) : Bool := c = '=' || isSpace c

/-- behind the equals sign; `total` is the width of the tag -/
def equals (total : Nat) (cs : List Char) : Except Cause (List Char) :=
  match cs.dropWhile isSpace with
  | '=' :: r => .ok r
  | q => .error (.attribute (total - width q) .expectedEquals)

/-- a quoted value, still escaped, and what follows it -/
def value (total : Nat) (cs : List Char) : Except Cause (List Char × List Char) :=
  match cs.dropWhile isSpace with
  | [] => .error (.attribute total .expectedValue)
  | c :: r =>
    if c = '"' ∨ c = '\'' then
      match r.dropWhile (· ≠ c) with
      | _ :: t => .ok (r.takeWhile (· ≠ c), t)
      | [] => .error (.attribute total (.unclosedValue c))
    else .error (.attribute (total - width (c :: r)) .unquotedValue)

/-- an attribute as it is written, where it starts, and what follows it -/
structure Raw where
  key : List Char
  position : Nat
  value : List Char
  rest : List Char

/-- the next attribute of a tag; `seen` are the keys before it, each with its position -/
def next (total : Nat) (seen : List (List Char × Nat)) (cs : List Char) :
    Except Cause (Option Raw) :=
  match cs.dropWhile isSpace with
  | [] => .ok none
  | c :: r => do
    let key := c :: r.takeWhile fun c => !endsKey c
    let position := total - width (c :: r)
    let r ← equals total (r.dropWhile fun c => !endsKey c)
    match seen.lookup key with
    | some previous => throw (.attribute position (.duplicate previous))
    | none =>
      let (v, r) ← value total r
      return some ⟨key, position, v, r⟩

theorem length_dropWhile_le {p : Char → Bool} (cs : List Char) :
    (cs.dropWhile p).length ≤ cs.length := (List.dropWhile_sublist p).length_le

theorem length_lt_of_equals {total : Nat} {cs r : List Char} (h : equals total cs = .ok r) :
    r.length < cs.length := by
  unfold equals at h
  have hle := length_dropWhile_le (p := isSpace) cs
  split at h
  · next hd => rw [hd] at hle; simp at hle; cases h; omega
  · cases h

theorem length_le_of_value {total : Nat} {cs v r : List Char} (h : value total cs = .ok (v, r)) :
    r.length ≤ cs.length := by
  unfold value at h
  have hle := length_dropWhile_le (p := isSpace) cs
  split at h
  · cases h
  · next c t hd =>
    rw [hd] at hle
    split at h
    · have hle' := length_dropWhile_le (p := (· ≠ c)) t
      split at h
      · next hd' => rw [hd'] at hle'; simp at hle hle'; cases h; omega
      · cases h
    · cases h

/-- an attribute takes at least one character -/
theorem length_lt_of_next {total : Nat} {seen : List (List Char × Nat)} {cs : List Char} {a : Raw}
    (h : next total seen cs = .ok (some a)) : a.rest.length < cs.length := by
  unfold next at h
  have hle := length_dropWhile_le (p := isSpace) cs
  split at h
  · cases h
  · next c t hd =>
    rw [hd] at hle
    simp only [bind, Except.bind] at h
    split at h
    · cases h
    · next r he =>
      have he := length_lt_of_equals he
      have hk := length_dropWhile_le (p := fun c => !endsKey c) t
      split at h
      · cases h
      · split at h
        · cases h
        · next vr hv =>
          have hv := length_le_of_value hv
          simp only [pure, Except.pure, Except.ok.injEq, Option.some.injEq] at h
          subst h
          simp at hle ⊢
          omega

end Attribute

def attributesFrom (total : Nat) (seen : List (List Char × Nat)) (cs : List Char) :
    Except Cause (List (String × String)) :=
  match _h : Attribute.next total seen cs with
  | .error cause => .error cause
  | .ok none => .ok []
  | .ok (some a) => do
    let value ← unescape a.value
    let rest ← attributesFrom total ((a.key, a.position) :: seen) a.rest
    return (String.ofList a.key, value) :: rest
termination_by cs.length
decreasing_by exact Attribute.length_lt_of_next _h

def attributes (tag : List Char) : Except Cause (List (String × String)) :=
  attributesFrom (width tag) [] (tagRest tag)

end MachineSpec.Markup
