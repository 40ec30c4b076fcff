import MachineSpec.Document.Basic
import MachineSpec.Document.Shape
import MachineSpec.Json.Value

/-!
# JSON values of a shape

Which values conform to a shape, and the document that each of them stands for.  A record is an
object whose keys are known and differ from each other, or a list of the first fields in order.  A
field may be null, which leaves it out; nothing else may.

* `StandsFor`           a value of a shape, with its document
* `FieldStandsFor`      the same for a field of a record, which may be null
* `ItemsStandFor`, `MembersStandFor`, `FieldsStandFor`   the values in a list, the members of an
                        object, and the values of fields in order
* `Value.Conforms`      a value of a shape
-/

namespace MachineSpec.Json

mutual

/-- a value of a shape, with the document that it stands for -/
inductive StandsFor : Shape → Value → Document → Prop
  | text (s : String) : StandsFor .text (.text s) (.text s)
  /-- a number of 32 bits, without a sign, a fraction and an exponent -/
  | number {n : Nat} (fits : n ≤ 4294967295) :
      StandsFor .number (.number { whole := n }) (.number (UInt32.ofNat n))
  | flag (b : Bool) : StandsFor .flag (.flag b) (.flag b)
  | word {words : List String} {s : String} (known : s ∈ words) :
      StandsFor (.choice words) (.text s) (.text s)
  | key {words : List String} {s : String} (known : s ∈ words) :
      StandsFor (.choice words) (.object [(s, .null)]) (.text s)
  | list {item : Shape} {vs : List Value} {ds : List Document} (items : ItemsStandFor item vs ds) :
      StandsFor (.list item) (.list vs) (.list ds)
  | object {title : String} {fields : List (String × Shape)} {ms : List (String × Value)}
      {ds : List (String × Document)} (once : (ms.map Prod.fst).Nodup)
      (members : MembersStandFor fields ms ds) :
      StandsFor (.record title fields) (.object ms) (.record ds)
  | inOrder {title : String} {fields : List (String × Shape)} {vs : List Value}
      {ds : List (String × Document)} (values : FieldsStandFor fields vs ds) :
      StandsFor (.record title fields) (.list vs) (.record ds)

/-- a field with its document; null stands for none -/
inductive FieldStandsFor : Shape → Value → Option Document → Prop
  | null (shape : Shape) : FieldStandsFor shape .null none
  | value {shape : Shape} {v : Value} {d : Document} (value : StandsFor shape v d) :
      FieldStandsFor shape v (some d)

inductive ItemsStandFor : Shape → List Value → List Document → Prop
  | nil (item : Shape) : ItemsStandFor item [] []
  | cons {item : Shape} {v : Value} {d : Document} {vs : List Value} {ds : List Document}
      (value : StandsFor item v d) (rest : ItemsStandFor item vs ds) :
      ItemsStandFor item (v :: vs) (d :: ds)

/-- members under known keys, in any order -/
inductive MembersStandFor :
    List (String × Shape) → List (String × Value) → List (String × Document) → Prop
  | nil (fields : List (String × Shape)) : MembersStandFor fields [] []
  | cons {fields : List (String × Shape)} {key : String} {shape : Shape} {v : Value}
      {d? : Option Document} {ms : List (String × Value)} {ds : List (String × Document)}
      (known : fields.lookup key = some shape) (field : FieldStandsFor shape v d?)
      (rest : MembersStandFor fields ms ds) :
      MembersStandFor fields ((key, v) :: ms) ((d?.map (key, ·)).toList ++ ds)

/-- values of fields in order; those at the end may be missing -/
inductive FieldsStandFor :
    List (String × Shape) → List Value → List (String × Document) → Prop
  | nil (fields : List (String × Shape)) : FieldsStandFor fields [] []
  | cons {fields : List (String × Shape)} {key : String} {shape : Shape} {v : Value}
      {d? : Option Document} {vs : List Value} {ds : List (String × Document)}
      (field : FieldStandsFor shape v d?) (rest : FieldsStandFor fields vs ds) :
      FieldsStandFor ((key, shape) :: fields) (v :: vs) ((d?.map (key, ·)).toList ++ ds)

end

/-- a value of a shape, whatever its document is -/
def Value.Conforms (shape : Shape) (v : Value) : Prop := ∃ d, StandsFor shape v d

end MachineSpec.Json
