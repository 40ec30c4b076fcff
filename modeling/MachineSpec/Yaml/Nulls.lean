import MachineSpec.Document.Shape
import MachineSpec.Yaml.Outline

/-!
# Members that are null in YAML

An outline, and the same with one member more that is null.  The mapping with that member stands
where the shape of the whole has a record: it is the outline itself, or a member or an item at some
depth.

* `AtRecord`    a change of the members of one mapping that stands for a record
* `AddsNull`    a member that is null where its key was missing
* `DropsNull`   one member less, which was null
-/

namespace MachineSpec.Yaml

/-- a change of the members of one mapping, which stands where an outline of this shape has a
record -/
inductive AtRecord (change : List (String × Shape) → List (Outline × Outline) →
    List (Outline × Outline) → Prop) : Shape → Outline → Outline → Prop
  | here {title : String} {fields : List (String × Shape)} {ms ms' : List (Outline × Outline)}
      (members : change fields ms ms') :
      AtRecord change (.record title fields) (.mapping ms) (.mapping ms')
  | member {title : String} {fields : List (String × Shape)}
      {before after : List (Outline × Outline)} {style : Style} {key : String} {shape : Shape}
      {o o' : Outline} (known : fields.lookup key = some shape)
      (value : AtRecord change shape o o') :
      AtRecord change (.record title fields) (.mapping (before ++ (.scalar style key, o) :: after))
        (.mapping (before ++ (.scalar style key, o') :: after))
  | item {shape : Shape} {before after : List Outline} {o o' : Outline}
      (value : AtRecord change shape o o') :
      AtRecord change (.list shape) (.sequence (before ++ o :: after))
        (.sequence (before ++ o' :: after))

/-- one member more, which is null, under a known key that the others do not have -/
inductive AddsNull (fields : List (String × Shape)) :
    List (Outline × Outline) → List (Outline × Outline) → Prop
  | between {before after : List (Outline × Outline)} {style : Style} {key : String} {o : Outline}
      (known : key ∈ fields.map Prod.fst) (new : key ∉ keysOf (before ++ after))
      (void : o.isVoid = true) :
      AddsNull fields (before ++ after) (before ++ (.scalar style key, o) :: after)

/-- one member less, which was null -/
inductive DropsNull (fields : List (String × Shape)) :
    List (Outline × Outline) → List (Outline × Outline) → Prop
  | between {before after : List (Outline × Outline)} {key o : Outline} (void : o.isVoid = true) :
      DropsNull fields (before ++ (key, o) :: after) (before ++ after)

end MachineSpec.Yaml
