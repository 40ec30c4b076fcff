import MachineSpec.Log

/-!
# References

A reference names something by one of several selectors and keeps a text for each of them.  An
entity that is looked up is a reference, or holds one beside other data (`Lookup`).

* `Reference.get?`, `set?`   the text under a selector
* `Reference.selection?`     the first selector with a text
* `Selection.marker?`        the selector to write beside the value; none for the primary one
* `Kind.named`               the selector that a marker names
* `Lookup.select`            the selection of an entity, which is reported unless it is primary
* `Lookup.assign`            stores a text under the selector that a marker names
* `Lookup.resolve`           an entity from a marker and a text
-/

namespace MachineSpec

/-- a text for each selector of the kind; an empty text stands for none -/
structure Reference (k : Kind) where
  values : Vector String k.selectors.length
  deriving DecidableEq, Repr

/-- the selector that stands for an entity, and its text -/
structure Selection where
  selector : String
  value : String
  primary : Bool
  deriving DecidableEq, Repr

/-- a marker that names no selector of its kind -/
structure UnsupportedSelector where
  kind : Kind
  marker : String
  deriving DecidableEq, Repr

namespace UnsupportedSelector

def message (e : UnsupportedSelector) : String :=
  e.kind.name ++ " by=\"" ++ e.marker ++ "\" is not supported"

end UnsupportedSelector

namespace Selection

/-- the selector to write beside the value; none for the primary one -/
def marker? (s : Selection) : Option String := if s.primary then none else some s.selector

end Selection

namespace Reference
variable {k : Kind}

def empty : Reference k := ⟨Vector.replicate _ ""⟩

instance : Inhabited (Reference k) := ⟨empty⟩

def index? (k : Kind) (name : String) : Option (Fin k.selectors.length) :=
  k.selectors.finIdxOf? name

def get? (r : Reference k) (name : String) : Option String :=
  (index? k name).map fun i => r.values.get i

def put (r : Reference k) (i : Fin k.selectors.length) (value : String) : Reference k :=
  ⟨r.values.set i.val value i.isLt⟩

def set? (r : Reference k) (name value : String) : Option (Reference k) :=
  (index? k name).map fun i => r.put i value

/-- selectors with their texts, most specific first -/
def entries (r : Reference k) : List (String × String) := k.selectors.zip r.values.toList

/-- the first selector with a text -/
def selection? (r : Reference k) : Option Selection :=
  (r.entries.find? fun e => e.2 ≠ "").map fun e => ⟨e.1, e.2, e.1 = k.primary⟩

end Reference

/-- the place of the selector that a marker names, which is reported; without a marker the place of
the primary one -/
def Kind.named (k : Kind) (marker? : Option String) :
    ExceptT UnsupportedSelector Logged (Fin k.selectors.length) :=
  let name := marker?.getD k.primary
  match Reference.index? k name with
  | none => throw ⟨k, name⟩
  | some i => do
    if marker?.isSome then
      ExceptT.lift (Logged.tell (.resolved k name))
    return i

/-- entities that are looked up by a reference inside them -/
class Lookup (α : Type) where
  kind : Kind
  empty : α
  reference : α → Reference kind
  withReference : α → Reference kind → α

instance (k : Kind) : Lookup (Reference k) where
  kind := k
  empty := .empty
  reference r := r
  withReference _ r := r

namespace Lookup
variable {α : Type} [Lookup α]

def get? (a : α) (name : String) : Option String := (reference a).get? name

def set? (a : α) (name value : String) : Option α :=
  ((reference a).set? name value).map (withReference a)

/-- the first selector with a text -/
def selection? (a : α) : Option Selection := (reference a).selection?

/-- the selection of an entity, which is reported unless it is primary -/
def select (a : α) : Logged (Option Selection) := do
  let s? := selection? a
  match s?.bind Selection.marker? with
  | some marker => Logged.tell (.selected (kind α) marker)
  | none => pure ()
  return s?

/-- stores a text under the selector that the marker names, or under the primary one -/
def assign (a : α) (marker? : Option String) (value : String) :
    ExceptT UnsupportedSelector Logged α := do
  let i ← (kind α).named marker?
  return withReference a ((reference a).put i value)

/-- an entity from a marker and a text -/
def resolve (marker? : Option String) (value : String) : ExceptT UnsupportedSelector Logged α :=
  assign empty marker? value

end Lookup

end MachineSpec
