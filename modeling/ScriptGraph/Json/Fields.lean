import ScriptGraph.Json.Basic

/-!
Taking documents apart. A record may be an object, whose further keys are ignored, or the array
of its fields in order, which may stop early where the fields left out have defaults.
-/

set_option autoImplicit false
set_option relaxedAutoImplicit false

namespace ScriptGraph.Json

def bool? : Json → Option Bool
  | .bool value => some value
  | _ => none

def integer? (least greatest : Int) : Json → Option Int
  | .integer value => if least ≤ value ∧ value ≤ greatest then some value else none
  | _ => none

def int32? (document : Json) : Option Int32 :=
  (document.integer? Int32.minValue.toInt Int32.maxValue.toInt).map Int32.ofInt

def int64? (document : Json) : Option Int64 :=
  (document.integer? Int64.minValue.toInt Int64.maxValue.toInt).map Int64.ofInt

def uint32? (document : Json) : Option UInt32 :=
  (document.integer? 0 (UInt32.size - 1 : Nat)).map fun value => value.toNat.toUInt32

def uint64? (document : Json) : Option UInt64 :=
  (document.integer? 0 (UInt64.size - 1 : Nat)).map fun value => value.toNat.toUInt64

def single? : Json → Option Single
  | .integer value => some (.ofInt value)
  | .double value => some value.narrow
  | .single value => some value
  | _ => none

def double? : Json → Option Double
  | .integer value => some (.ofInt value)
  | .double value => some value
  | .single value => some value.widen
  | _ => none

def list? {α : Type} (read : Json → Option α) : Json → Option (List α)
  | .array items => items.mapM read
  | _ => none

def nullable? {α : Type} (read : Json → Option α) : Json → Option (Option α)
  | .null => some none
  | document => (read document).map some

structure Record where
  fields : List (String × Option Json)

/-- The one value an object gives a key, if any; fails if it gives several. -/
def unique? (key : String) (entries : List (String × Json)) : Option (Option Json) :=
  match entries.filter (fun entry => entry.1 == key) with
  | [] => some none
  | [entry] => some (some entry.2)
  | _ => none

def record? (names : List String) : Json → Option Record
  | .object entries =>
    (names.mapM fun name => (unique? name entries).map fun value => (name, value)).map Record.mk
  | .array items =>
    if items.length ≤ names.length then
      some ⟨(names.zip (items.map some)) ++ (names.drop items.length).map fun name => (name, none)⟩
    else none
  | _ => none

namespace Record

def get (record : Record) (name : String) : Option Json :=
  (record.fields.lookup name).join

def required {α : Type} (record : Record) (name : String) (read : Json → Option α) : Option α :=
  (record.get name).bind read

def optional {α : Type} (record : Record) (name : String) (default : α) (read : Json → Option α) :
    Option α :=
  match record.get name with
  | some document => read document
  | none => some default

end Record

end ScriptGraph.Json
