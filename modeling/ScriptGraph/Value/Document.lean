import ScriptGraph.Value
import ScriptGraph.Json.Fields

/-!
Values in documents: the kinds without content are written as their bare name, all others as an
object whose one key is the name of the kind.
-/

set_option autoImplicit false
set_option relaxedAutoImplicit false

namespace ScriptGraph.Value

mutual

def toJson : Value → Json
  | .null => .text "Null"
  | .this => .text "This"
  | .bool value => .object [("Bool", .bool value)]
  | .int32 value => .object [("Int32", .integer value.toInt)]
  | .int64 value => .object [("Int64", .integer value.toInt)]
  | .single value => .object [("Single", .single value)]
  | .double value => .object [("Double", .double value)]
  | .text value => .object [("String", .text value)]
  | .object id => .object [("Object", .integer id.toNat)]
  | .array items => .object [("Array", .array (toJsonItems items))]

def toJsonItems : List Value → List Json
  | [] => []
  | item :: items => toJson item :: toJsonItems items

end

mutual

def ofJson? : Json → Option Value
  | .text name =>
    if name = "Null" then some .null else if name = "This" then some .this else none
  | .object [(kind, content)] =>
    match kind, content with
    | "Null", .null => some .null
    | "This", .null => some .this
    | "Bool", content => content.bool?.map .bool
    | "Int32", content => content.int32?.map .int32
    | "Int64", content => content.int64?.map .int64
    | "Single", content => content.single?.map .single
    | "Double", content => content.double?.map .double
    | "String", content => content.text?.map .text
    | "Object", content => content.uint64?.map .object
    | "Array", .array items => (ofJsonItems? items).map .array
    | _, _ => none
  | _ => none

def ofJsonItems? : List Json → Option (List Value)
  | [] => some []
  | item :: items => do return (← ofJson? item) :: (← ofJsonItems? items)

end

end ScriptGraph.Value
