import MachineSpec.Document.Shape
import MachineSpec.Json.Value

/-!
# Members that are null in JSON

A value, and the same with one member more that is null.  The object with that member stands where
the shape of the whole has a record: it is the value itself, or a member, a field or an item at some
depth.

* `AtRecord`    a change of the members of one object that stands for a record
* `AddsNull`    a member that is null where its key was missing
* `DropsNull`   one member less, which was null
-/

namespace MachineSpec.Json

/-- a change of the members of one object that stands where a value of this shape has a record -/
inductive AtRecord (change : List (String × Shape) → List (String × Value) →
    List (String × Value) → Prop) : Shape → Value → Value → Prop
  | here {title : String} {fields : List (String × Shape)} {ms ms' : List (String × Value)}
      (members : change fields ms ms') :
      AtRecord change (.record title fields) (.object ms) (.object ms')
  | member {title : String} {fields : List (String × Shape)} {before after : List (String × Value)}
      {key : String} {shape : Shape} {v v' : Value} (known : fields.lookup key = some shape)
      (value : AtRecord change shape v v') :
      AtRecord change (.record title fields) (.object (before ++ (key, v) :: after))
        (.object (before ++ (key, v') :: after))
  /-- a record may also be a list of its first fields -/
  | field {title : String} {front back : List (String × Shape)} {before after : List Value}
      {key : String} {shape : Shape} {v v' : Value} (place : before.length = front.length)
      (value : AtRecord change shape v v') :
      AtRecord change (.record title (front ++ (key, shape) :: back)) (.list (before ++ v :: after))
        (.list (before ++ v' :: after))
  | item {shape : Shape} {before after : List Value} {v v' : Value}
      (value : AtRecord change shape v v') :
      AtRecord change (.list shape) (.list (before ++ v :: after)) (.list (before ++ v' :: after))

/-- one member more, which is null, under a known key that the others do not have -/
inductive AddsNull (fields : List (String × Shape)) :
    List (String × Value) → List (String × Value) → Prop
  | between {before after : List (String × Value)} {key : String}
      (known : key ∈ fields.map Prod.fst) (new : key ∉ (before ++ after).map Prod.fst) :
      AddsNull fields (before ++ after) (before ++ (key, .null) :: after)

/-- one member less, which was null -/
inductive DropsNull (fields : List (String × Shape)) :
    List (String × Value) → List (String × Value) → Prop
  | between {before after : List (String × Value)} {key : String} :
      DropsNull fields (before ++ (key, .null) :: after) (before ++ after)

end MachineSpec.Json
