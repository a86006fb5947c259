import ScriptGraph.Floating.Text
import ScriptGraph.Text.Printable

/-!
The typed values that literals, heap slots and running programs hold, and their agreement with
the type names that definitions declare.
-/

set_option autoImplicit false
set_option relaxedAutoImplicit false

namespace ScriptGraph

/-- A value; numbers of different width are different values. -/
inductive Value where
  | null
  | bool (value : Bool)
  | int32 (value : Int32)
  | int64 (value : Int64)
  | single (value : Single)
  | double (value : Double)
  | text (value : String)
  /-- The program's own behaviour. -/
  | this
  /-- An object of the host, by the host's number for it. -/
  | object (id : UInt64)
  | array (items : List Value)
deriving Inhabited

/-- The type of a slot that takes any value. -/
def objectType : String := "SystemObject"

def boolType : String := "SystemBoolean"
def int32Type : String := "SystemInt32"
def int64Type : String := "SystemInt64"
def singleType : String := "SystemSingle"
def doubleType : String := "SystemDouble"
def textType : String := "SystemString"
def arrayType : String := "SystemObjectArray"
def behaviourType : String := "VRCUdonCommonInterfacesIUdonEventReceiver"

namespace Value

mutual

/-- Whether two values are the same, floating point numbers by their bits. -/
def same : Value → Value → Bool
  | .null, .null => true
  | .bool a, .bool b => a == b
  | .int32 a, .int32 b => a == b
  | .int64 a, .int64 b => a == b
  | .single a, .single b => a == b
  | .double a, .double b => a == b
  | .text a, .text b => a == b
  | .this, .this => true
  | .object a, .object b => a == b
  | .array a, .array b => sameItems a b
  | _, _ => false

def sameItems : List Value → List Value → Bool
  | [], [] => true
  | a :: as, b :: bs => same a b && sameItems as bs
  | _, _ => false

end

mutual

theorem same_iff : ∀ a b : Value, same a b = true ↔ a = b
  | .null, b => by cases b <;> simp [same]
  | .bool _, b => by cases b <;> simp [same]
  | .int32 _, b => by cases b <;> simp [same]
  | .int64 _, b => by cases b <;> simp [same]
  | .single _, b => by cases b <;> simp [same]
  | .double _, b => by cases b <;> simp [same]
  | .text _, b => by cases b <;> simp [same]
  | .this, b => by cases b <;> simp [same]
  | .object _, b => by cases b <;> simp [same]
  | .array _, b => by cases b <;> simp [same, sameItems_iff]

theorem sameItems_iff : ∀ as bs : List Value, sameItems as bs = true ↔ as = bs
  | [], bs => by cases bs <;> simp [sameItems]
  | a :: as, bs => by cases bs <;> simp [sameItems, same_iff a, sameItems_iff as]

end

instance : DecidableEq Value := fun a b => decidable_of_iff _ (same_iff a b)

/-- The type a value belongs to by nature; null belongs to none. -/
def typeName? : Value → Option String
  | .null => none
  | .bool _ => some boolType
  | .int32 _ => some int32Type
  | .int64 _ => some int64Type
  | .single _ => some singleType
  | .double _ => some doubleType
  | .text _ => some textType
  | .this => some behaviourType
  | .object _ => some objectType
  | .array _ => some arrayType

/-- The value a slot of a type starts with; types without a value of their own start with null. -/
def defaultFor (type : Option String) : Value :=
  if type = some boolType then .bool false
  else if type = some int32Type then .int32 0
  else if type = some int64Type then .int64 0
  else if type = some singleType then .single .zero
  else if type = some doubleType then .double .zero
  else .null

/-- Whether a slot of a type may hold a value: null fits everywhere, and a slot of no type or of
the object type takes anything. -/
def fits (value : Value) (type : Option String) : Bool :=
  match type, value.typeName? with
  | none, _ => true
  | _, none => true
  | some declared, some actual => declared = objectType || declared = actual

def text? : Value → Option String
  | .text value => some value
  | _ => none

def bool? : Value → Option Bool
  | .bool value => some value
  | _ => none

def int32? : Value → Option Int32
  | .int32 value => some value
  | _ => none

mutual

/-- A value as it is shown in listings and messages. -/
def display : Value → String
  | .null => "null"
  | .bool true => "true"
  | .bool false => "false"
  | .int32 value => Text.signedDecimal value.toInt
  | .int64 value => Text.signedDecimal value.toInt ++ "L"
  | .single value => value.text ++ "f"
  | .double value => value.text ++ "d"
  | .text value => Text.quoted value
  | .this => "this"
  | .object id => "<object #" ++ Text.decimal id.toNat ++ ">"
  | .array items => "[" ++ displayItems items ++ "]"

def displayItems : List Value → String
  | [] => ""
  | [item] => display item
  | item :: next :: items => display item ++ ", " ++ displayItems (next :: items)

end

end Value

/-- Whether values of one type may flow into an input of another: an end without type or an
input of the object type is open to all. -/
def typesCompatible : Option String → Option String → Bool
  | none, _ => true
  | _, none => true
  | some source, some target => target = objectType || source = target

end ScriptGraph
