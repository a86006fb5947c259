import ScriptGraph.Editing
import ScriptGraph.Presentation

/-!
Connecting and disconnecting nodes. An edit that changes nothing gives no graph.
-/

set_option autoImplicit false
set_option relaxedAutoImplicit false

namespace ScriptGraph.Graph

/-- The type of an output: for access to a variable the type of that variable. -/
def feedType (g : Graph) (n : Node) (d : Definition) (output : Nat) : Option String :=
  match n.access? with
  | some .get => ((n.target?.bind g.find?).bind Node.variableType?).or (d.outputType output)
  | _ => d.outputType output

/-- Feeds an input from an output, in place of what has fed it. -/
def connectValue (g : Graph) (c : Catalog) (source : Uid) (output : Nat) (target : Uid)
    (input : Nat) : Except EditError Graph := do
  if source = target then throw (.selfConnection target)
  let (n, d) ← g.placed c source
  let (m, e) ← g.placed c target
  if d.outputs.length ≤ output then throw (.absentPort source .output output)
  if !(Ports.of e m).valueInputs.contains input then throw (.absentPort target .input input)
  let found := g.feedType n d output
  let expected := e.inputType input
  if !typesCompatible found expected then
    throw (.typeMismatch (expected.getD "") (found.getD ""))
  if m.links.length ≤ input then throw (.missingEntry m.fullName)
  return g.update target fun n => { n with links := n.links.set input (some ⟨source, output⟩) }

def disconnectValue (g : Graph) (target : Uid) (input : Nat) : Except EditError (Option Graph) := do
  let n ← g.get target
  match n.links[input]? with
  | none => throw (.absentPort target .input input)
  | some none => return none
  | some (some _) =>
    return some (g.update target fun n => { n with links := n.links.set input none })

/-- Leads a flow output to a node from which there is no way back. -/
def connectFlow (g : Graph) (c : Catalog) (source : Uid) (port : Nat) (target : Uid) :
    Except EditError Graph := do
  let (n, d) ← g.placed c source
  let (_, e) ← g.placed c target
  if source = target || (g.flowSuccessors target).contains source then
    throw (.recursiveFlow source target)
  if Node.flowPorts d n.flows ≤ port then throw (.absentPort source .flowOutput port)
  if !e.hasFlowInput then throw (.absentPort target .flowInput 0)
  if n.flows.length ≤ port then throw (.missingEntry n.fullName)
  return (g.update source fun n => { n with flows := n.flows.set port (some target) }).relayout c
    source

def disconnectFlow (g : Graph) (c : Catalog) (source : Uid) (port : Nat) :
    Except EditError (Option Graph) := do
  let n ← g.get source
  match n.flows[port]? with
  | none => throw (.absentPort source .flowOutput port)
  | some none => return none
  | some (some _) =>
    return some ((g.update source fun n => { n with flows := n.flows.set port none }).relayout c
      source)

end ScriptGraph.Graph
