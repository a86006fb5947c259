import ScriptGraph.Kind
import ScriptGraph.Value

/-!
Definitions: the signatures of the kinds of nodes that may be placed in a graph.
-/

set_option autoImplicit false
set_option relaxedAutoImplicit false

namespace ScriptGraph

/-- A typed input or output. -/
structure Parameter where
  name : String
  type : Option String
  default : Value
deriving DecidableEq

/-- The signature of the nodes with a full name. -/
structure Definition where
  fullName : String
  name : String
  /-- The declaring type, if any. -/
  type : Option String
  inputs : List Parameter
  outputs : List Parameter
  /-- Whether the nodes take part in the flow of control. -/
  flow : Bool
  inputFlowNames : List String
  outputFlowNames : List String
deriving DecidableEq

namespace Definition

def kind (d : Definition) : Kind := .ofName d.fullName

def isEvent (d : Definition) : Bool := d.kind.isEvent

def flowArity (d : Definition) : Nat :=
  if !d.flow then 0 else if d.kind.isForked then 2 else 1

def hasFlowInput (d : Definition) : Bool :=
  d.flow && !d.isEvent

/-- Whether a parameter is a pointer; such definitions are never offered as overloads. -/
def hasPointers (d : Definition) : Bool :=
  d.fullName.toList.contains '*'

def inputType (d : Definition) (index : Nat) : Option String :=
  d.inputs[index]?.bind Parameter.type

def outputType (d : Definition) (index : Nat) : Option String :=
  d.outputs[index]?.bind Parameter.type

end Definition

/-- The value an input starts with: its default, or that of its type if the default is null. -/
def Parameter.initial (p : Parameter) : Value :=
  if p.default = .null then .defaultFor p.type else p.default

def Definition.initialValues (d : Definition) : List Value :=
  d.inputs.map Parameter.initial

end ScriptGraph
