import ScriptGraph.Machine

/-!
A host that knows the methods that control flow is built from. It records every call; unknown
methods do nothing unless it is strict.
-/

set_option autoImplicit false
set_option relaxedAutoImplicit false

namespace ScriptGraph

/-- A call with its arguments as they were passed in. -/
structure Call where
  method : String
  arguments : List Value
deriving DecidableEq

structure BasicHost where
  calls : Array Call
  blacklist : List Value
  strict : Bool

namespace BasicHost

def integer (method : String) (arguments : List Value) (index : Nat) : Except RunError Int32 :=
  match arguments[index]?.bind Value.int32? with
  | some value => .ok value
  | none => .error (.callFailed method
      ("argument " ++ Text.decimal index ++ " is not an integer"))

def items (method : String) (arguments : List Value) : Except RunError (List Value) :=
  match arguments with
  | .array items :: _ => .ok items
  | arguments => .error (.callFailed method
      ("expected an array, found " ++ (arguments.head?.getD .null).display))

def output (method : String) (arguments : List Value) (index : Nat) (value : Value) :
    Except RunError (List Value) :=
  if index < arguments.length then .ok (arguments.set index value)
  else .error (.callFailed method ("missing output argument " ++ Text.decimal index))

/-- The item at an index; a negative index is out of range. -/
def itemAt (method : String) (items : List Value) (index : Int32) : Except RunError Value :=
  match if index.toInt < 0 then none else items[index.toInt.toNat]? with
  | some item => .ok item
  | none => .error (.callFailed method
      ("index " ++ Text.signedDecimal index.toInt ++ " is out of range"))

/-- The effect of a method on its arguments. -/
def execute (strict : Bool) (method : String) (arguments : List Value) :
    Except RunError (List Value) := do
  if method = lessThanMethod then
    let first ← integer method arguments 0
    let second ← integer method arguments 1
    output method arguments 2 (.bool (first.toInt < second.toInt))
  else if method = additionMethod then
    let first ← integer method arguments 0
    let second ← integer method arguments 1
    output method arguments 2 (.int32 (first + second))
  else if method = arrayLengthMethod then
    let items ← items method arguments
    output method arguments 1 (.int32 (.ofInt items.length))
  else if method = arrayGetMethod then
    let index ← integer method arguments 1
    let items ← items method arguments
    let item ← itemAt method items index
    output method arguments 2 item
  else if method = isValidMethod then
    output method arguments 1 (.bool ((arguments.head?.getD .null) ≠ .null))
  else if strict then .error (.unknownMethod method)
  else .ok arguments

def host : Host BasicHost where
  call state method arguments :=
    (execute state.strict method arguments,
      { state with calls := state.calls.push ⟨method, arguments⟩ })
  blocks state target := state.blacklist.contains target

def fresh (blacklist : List Value) (strict : Bool) : BasicHost := ⟨#[], blacklist, strict⟩

def callsTo (state : BasicHost) (method : String) : List (List Value) :=
  (state.calls.toList.filter fun call => call.method == method).map Call.arguments

end BasicHost

end ScriptGraph
