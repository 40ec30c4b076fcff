import MachineSpec.Document.Basic
import MachineSpec.Document.Shape
import MachineSpec.Yaml.Outline

/-!
# YAML documents of a shape

Which outlines conform to a shape, and the document that each of them stands for.  A number and a
flag are plain words, and a text is any scalar.  A record is a mapping whose keys are known and
differ from each other; it and a list may also be left empty.  A field may be null, which leaves it
out.

* `StandsFor`           an outline of a shape, with its document
* `FieldStandsFor`      the same for a field of a record, which may be null
* `ItemsStandFor`, `MembersStandFor`   the items of a sequence, and the members of a mapping
-/

namespace MachineSpec.Yaml

mutual

/-- an outline of a shape, with the document that it stands for -/
inductive StandsFor : Shape → Outline → Document → Prop
  | text (style : Style) (s : String) : StandsFor .text (.scalar style s) (.text s)
  | number {s : String} {n : Nat} (numeral : Sense.natural? s.toList = some n)
      (fits : n ≤ 4294967295) : StandsFor .number (.scalar .plain s) (.number (UInt32.ofNat n))
  | flag {s : String} {b : Bool} (word : Sense.flag? s = some b) :
      StandsFor .flag (.scalar .plain s) (.flag b)
  | word {words : List String} (style : Style) {s : String} (known : s ∈ words) :
      StandsFor (.choice words) (.scalar style s) (.text s)
  | list {item : Shape} {os : List Outline} {ds : List Document}
      (items : ItemsStandFor item os ds) : StandsFor (.list item) (.sequence os) (.list ds)
  | noItems (item : Shape) : StandsFor (.list item) (.scalar .plain "") (.list [])
  | record {title : String} {fields : List (String × Shape)} {ms : List (Outline × Outline)}
      {ds : List (String × Document)} (once : (keysOf ms).Nodup)
      (members : MembersStandFor fields ms ds) :
      StandsFor (.record title fields) (.mapping ms) (.record ds)
  | noMembers (title : String) (fields : List (String × Shape)) :
      StandsFor (.record title fields) (.scalar .plain "") (.record [])

/-- a field with its document; null stands for none -/
inductive FieldStandsFor : Shape → Outline → Option Document → Prop
  | null {shape : Shape} {o : Outline} (void : o.isVoid = true) : FieldStandsFor shape o none
  | value {shape : Shape} {o : Outline} {d : Document} (filled : o.isVoid = false)
      (value : StandsFor shape o d) : FieldStandsFor shape o (some d)

inductive ItemsStandFor : Shape → List Outline → List Document → Prop
  | nil (item : Shape) : ItemsStandFor item [] []
  | cons {item : Shape} {o : Outline} {d : Document} {os : List Outline} {ds : List Document}
      (value : StandsFor item o d) (rest : ItemsStandFor item os ds) :
      ItemsStandFor item (o :: os) (d :: ds)

/-- members under known keys, in any order; a key is written as any scalar -/
inductive MembersStandFor :
    List (String × Shape) → List (Outline × Outline) → List (String × Document) → Prop
  | nil (fields : List (String × Shape)) : MembersStandFor fields [] []
  | cons {fields : List (String × Shape)} (style : Style) {key : String} {shape : Shape}
      {o : Outline} {d? : Option Document} {ms : List (Outline × Outline)}
      {ds : List (String × Document)} (known : fields.lookup key = some shape)
      (field : FieldStandsFor shape o d?) (rest : MembersStandFor fields ms ds) :
      MembersStandFor fields ((.scalar style key, o) :: ms) ((d?.map (key, ·)).toList ++ ds)

end

end MachineSpec.Yaml
