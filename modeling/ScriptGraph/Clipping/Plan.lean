import ScriptGraph.Catalog
import ScriptGraph.Clipping
import ScriptGraph.Graph

/-!
Planning what a clipping adds to a graph. Nodes get new uids, and connections among them follow;
connections to anything else are cleared. Variables that the graph has already are reused, other
variables are renamed if their name is taken, and events that there may be only one of are left
out if there is one.
-/

set_option autoImplicit false
set_option relaxedAutoImplicit false

namespace ScriptGraph

/-- The key by which events are recognised as the same: the definition, and for the change of a
variable that variable too. -/
def Node.eventKey (n : Node) : String :=
  if n.kind = .changeEvent then n.fullName ++ "|" ++ n.target?.getD "" else n.fullName

/-- Whether a graph may hold only one event with the key of the node. -/
def Node.isSingleEvent (n : Node) : Bool := n.isEvent && n.kind ≠ .customEvent

/-- The nodes to be added so far, and which uid stands for which, the latest first. -/
structure Plan where
  uids : List (Uid × Uid)
  /-- The names of the variables of the graph and of those to be added. -/
  names : List String
  nodes : List Node
  supply : Supply

namespace Plan

/-- The uid of the node of the graph that stands for a variable, if the variable is reused. -/
def reused? (g : Graph) (n : Node) : Option Uid :=
  if n.isVariable then
    if (g.find? n.uid).any Node.isVariable then some n.uid
    else
      let name := n.variableName?.getD ""
      if isInternalName name then (g.findVariable? name).map Node.uid else none
  else none

/-- A variable that is added takes a name that is not taken; other nodes are moved. -/
def adapted (names : List String) (anchor : Position) (n : Node) : Node × List String :=
  if n.isVariable then
    let name := unusedNameLike names (n.variableName?.getD "")
    ({ n with values := n.values.set nameInput (.text name) }, names ++ [name])
  else ({ n with position := n.position + anchor }, names)

def add (c : Catalog) (g : Graph) (anchor : Position) (p : Plan) (n : Node) : Plan :=
  match c.find? n.fullName with
  | none => p
  | some d =>
    match reused? g n with
    | some uid => { p with uids := (n.uid, uid) :: p.uids }
    | none =>
      let (adapted, names) := adapted p.names anchor n
      let (uid, supply) := p.supply.draw
      { uids := (n.uid, uid) :: p.uids
        names
        nodes := p.nodes ++ [{ adapted with uid }.conform d]
        supply }

/-- The plan for all nodes of a clipping, their connections still as they were. -/
def ofClipping (c : Catalog) (g : Graph) (anchor : Position) (supply : Supply) (clipping : Clipping) :
    Plan :=
  clipping.nodes.foldl (add c g anchor) ⟨[], g.variableNames, [], supply⟩

/-! ## Connections -/

/-- The node bound to what stands for its variable. -/
def retarget (uids : List (Uid × Uid)) (n : Node) : Node :=
  if n.access?.isSome then
    match n.values with
    | .text target :: rest => { n with values := .text ((uids.lookup target).getD target) :: rest }
    | _ => n
  else n

/-- The node connected to what stands for the nodes it was connected to. -/
def reconnect (uids : List (Uid × Uid)) (n : Node) : Node :=
  { n with
    links := n.links.map fun link => link.bind fun l =>
      (uids.lookup l.node).map fun node => { l with node }
    flows := n.flows.map fun flow => flow.bind fun target => uids.lookup target }

/-- The nodes without single events that there are already, or that an earlier node is. -/
def single : List String → List Node → List Node
  | _, [] => []
  | keys, n :: rest =>
    if n.isSingleEvent then
      if keys.contains n.eventKey then single keys rest else n :: single (n.eventKey :: keys) rest
    else n :: single keys rest

/-- The node without connections to what is neither added nor, for links, in the graph. -/
def release (g : Graph) (added : List Uid) (n : Node) : Node :=
  { n with
    links := n.links.map fun link => link.filter fun l => added.contains l.node || g.contains l.node
    flows := n.flows.map fun flow => flow.filter added.contains }

/-- The nodes that a plan adds to a graph. -/
def additions (g : Graph) (p : Plan) : List Node :=
  let kept := (single (g.eventNodes.map Node.eventKey) (p.nodes.map (retarget p.uids))).map
    (reconnect p.uids)
  kept.map (release g (kept.map Node.uid))

end Plan

end ScriptGraph
