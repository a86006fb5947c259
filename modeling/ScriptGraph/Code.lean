import ScriptGraph.Program

/-!
Code with symbolic jump targets, one stream of operations for each entry point. Labels are numbers without
bound, as slots and addresses are.
-/

set_option autoImplicit false
set_option relaxedAutoImplicit false

namespace ScriptGraph

abbrev Label := Nat

inductive Target where
  | label (label : Label)
  /-- The end of the event. -/
  | halt
deriving DecidableEq

inductive Op where
  | copy (source destination : Slot)
  | call (method : String) (slots : List Slot)
  | jump (target : Target)
  | jumpUnless (condition : Slot) (target : Target)
  /-- Marks the place of the next operation. -/
  | label (label : Label)
deriving DecidableEq

namespace Op

def isLabel : Op → Bool
  | .label _ => true
  | _ => false

end Op

/-- The code of one event. -/
structure Stream where
  name : String
  ops : List Op
deriving DecidableEq

/-- The number of instructions that operations become. -/
def codeLength (ops : List Op) : Nat := ops.countP fun op => !op.isLabel

end ScriptGraph
