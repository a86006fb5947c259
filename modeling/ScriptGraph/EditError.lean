import ScriptGraph.Node

/-!
Why edits are refused.
-/

set_option autoImplicit false
set_option relaxedAutoImplicit false

namespace ScriptGraph

/-- The sides of a node that have ports. -/
inductive Side where
  | input
  | output
  | flowInput
  | flowOutput
deriving DecidableEq, Repr

def Side.name : Side → String
  | .input => "input"
  | .output => "output"
  | .flowInput => "flow input"
  | .flowOutput => "flow output"

inductive EditError where
  | absentNode (uid : Uid)
  | absentDefinition (fullName : String)
  /-- There is an event already of which there may be one only. -/
  | duplicateEvent (name : String)
  | recursiveFlow (source target : Uid)
  | absentPort (uid : Uid) (side : Side) (port : Nat)
  | typeMismatch (expected found : String)
  | selfConnection (uid : Uid)
  | notVariable (uid : Uid)
  | reservedName (name : String)
  | notOverload (current requested : String)
  | misfit (uid : Uid) (input : Nat) (expected : String) (value : Value)
  /-- A node has fewer entries than its ports would need. -/
  | missingEntry (fullName : String)
  /-- The graph is being repaired. -/
  | underRepair
deriving DecidableEq

def EditError.message : EditError → String
  | .absentNode uid => "Node '" ++ uid ++ "' does not exist in this graph"
  | .absentDefinition name => "No node definition is registered for '" ++ name ++ "'"
  | .duplicateEvent name =>
    "Can't create more than one " ++ name ++ " node, manage your flow with a Block node instead"
  | .recursiveFlow source target =>
    "Connecting '" ++ source ++ "' to '" ++ target ++ "' would create a recursive flow"
  | .absentPort uid side port =>
    "Node '" ++ uid ++ "' has no " ++ side.name ++ " port " ++ Text.decimal port
  | .typeMismatch expected found =>
    "Cannot connect a " ++ found ++ " output into a " ++ expected ++ " input"
  | .selfConnection uid => "Node '" ++ uid ++ "' cannot be connected to itself"
  | .notVariable uid => "Node '" ++ uid ++ "' is not a variable"
  | .reservedName name => "Variable name '" ++ name ++ "' is reserved for internal use"
  | .notOverload current requested =>
    "'" ++ requested ++ "' is not an overload of '" ++ current ++ "'"
  | .misfit uid input expected value =>
    "Value " ++ value.display ++ " does not fit input " ++ Text.decimal input ++ " of '" ++ uid ++
      "' (expected " ++ expected ++ ")"
  | .missingEntry name => "A node of '" ++ name ++ "' has too few entries"
  | .underRepair => "The session is reloading; edits are not accepted until it finishes"

end ScriptGraph
