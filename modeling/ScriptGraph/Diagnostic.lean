import ScriptGraph.Graph.Document

/-!
Diagnostics: problems of a graph that were repaired or worked around.
-/

set_option autoImplicit false
set_option relaxedAutoImplicit false

namespace ScriptGraph

/-- What was found at a node. -/
inductive Problem where
  | missingDefinition (fullName : String)
  | danglingLink (input : Nat) (link : Link)
  | danglingFlow (port : Nat) (target : Uid)
  | unresolvedVariable
  | droppedFlow (target : Uid)
  | recursiveFlow (port : Nat)
  | misfit (input : Nat)
  | unnamedEvent
  | duplicateEntry (name : String)
  | valueCycle
  | convertedComment
deriving DecidableEq

inductive ProblemKind where
  | missingDefinition
  | danglingLink
  | danglingFlow
  | unresolvedVariable
  | droppedFlow
  | recursiveFlow
  | invalidValue
  | duplicateEntry
  | valueCycle
  | convertedComment
deriving DecidableEq, Repr

structure Diagnostic where
  node : Uid
  problem : Problem
deriving DecidableEq

namespace Problem

def kind : Problem → ProblemKind
  | .missingDefinition _ => .missingDefinition
  | .danglingLink _ _ => .danglingLink
  | .danglingFlow _ _ => .danglingFlow
  | .unresolvedVariable => .unresolvedVariable
  | .droppedFlow _ => .droppedFlow
  | .recursiveFlow _ => .recursiveFlow
  | .misfit _ => .invalidValue
  | .unnamedEvent => .invalidValue
  | .duplicateEntry _ => .duplicateEntry
  | .valueCycle => .valueCycle
  | .convertedComment => .convertedComment

def message : Problem → String
  | .missingDefinition name => "No definition found for '" ++ name ++ "'"
  | .danglingLink input link =>
    "Input " ++ Text.decimal input ++ " referenced missing output '" ++ link.text ++ "'"
  | .danglingFlow port target =>
    "Flow " ++ Text.decimal port ++ " referenced missing node '" ++ target ++ "'"
  | .unresolvedVariable => "Variable node targets a variable that no longer exists"
  | .droppedFlow target => "Flow to '" ++ target ++ "' dropped, no free port left"
  | .recursiveFlow port => "Flow " ++ Text.decimal port ++ " closed a cycle and was cleared"
  | .misfit input =>
    "Value of input " ++ Text.decimal input ++ " did not match its type and was reset"
  | .unnamedEvent => "Custom event has no name and was skipped"
  | .duplicateEntry name => "Entry point '" ++ name ++ "' is defined more than once"
  | .valueCycle => "Value inputs form a cycle; the cycle was broken with null"
  | .convertedComment => "Converted comment node into a layout comment"

end Problem

/-- Whether a sort of problem makes a strict compilation fail. -/
def ProblemKind.isError : ProblemKind → Bool
  | .missingDefinition | .duplicateEntry | .valueCycle => true
  | _ => false

namespace Diagnostic

def kind (d : Diagnostic) : ProblemKind := d.problem.kind

def isError (d : Diagnostic) : Bool := d.kind.isError

def text (d : Diagnostic) : String :=
  (if d.isError then "[Error] " else "[Warning] ") ++ d.problem.message ++ " (" ++ d.node ++ ")"

end Diagnostic

end ScriptGraph
