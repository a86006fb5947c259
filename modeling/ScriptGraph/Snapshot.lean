import ScriptGraph.Catalog
import ScriptGraph.Snapshot.Flow

/-!
Snapshots: graphs repaired so that compiling only meets live references. Nothing here fails, and
every repair is reported.
-/

set_option autoImplicit false
set_option relaxedAutoImplicit false

namespace ScriptGraph

/-- What other nodes may connect to at a node: its outputs, and whether it has a flow input. -/
structure Terminal where
  outputs : Nat
  flowInput : Bool
deriving DecidableEq

namespace Graph

/-- The terminals of all nodes by uid; of several nodes with one uid the last counts. -/
def terminals (c : Catalog) (g : Graph) : List (Uid × Terminal) :=
  (g.nodes.filterMap fun n =>
    (c.find? n.fullName).map fun d => (n.uid, ⟨d.outputs.length, d.hasFlowInput⟩)).reverse

def removeUndefined (c : Catalog) (g : Graph) : Graph × List Diagnostic :=
  ({ g with nodes := g.nodes.filter fun n => (c.find? n.fullName).isSome },
    (g.nodes.filter fun n => (c.find? n.fullName).isNone).map fun n =>
      ⟨n.uid, .missingDefinition n.fullName⟩)

/-- The nodes that are bound to a variable that does not exist or has no name. -/
def unresolved (g : Graph) : List Uid :=
  (g.nodes.filter fun n => n.access?.isSome && (g.targetName? n).isNone).map Node.uid

def removeUnresolved (g : Graph) : Graph × List Diagnostic :=
  (g.unresolved.foldl remove g, g.unresolved.map fun uid => ⟨uid, .unresolvedVariable⟩)

end Graph

namespace Node

/-- A link that leads to an output that exists. A link to an output that a node does not have
goes to its first output; a link to the node itself or to a node without outputs is cleared. -/
def mendLink (terminals : List (Uid × Terminal)) (uid : Uid) (link : Link) : Option Link :=
  match terminals.lookup link.node with
  | none => none
  | some terminal =>
    if link.node = uid then none
    else if link.output < terminal.outputs then some link
    else if 0 < terminal.outputs then some { link with output := 0 }
    else none

def mendFlow (terminals : List (Uid × Terminal)) (uid target : Uid) : Option Uid :=
  if target ≠ uid ∧ (terminals.lookup target).any Terminal.flowInput then some target else none

/-- The node with its links and flows mended, before its flows are laid out. -/
def mended (terminals : List (Uid × Terminal)) (d : Definition) (n : Node) : Node :=
  { n with
    links := (fitted d.inputs.length n.links).map fun link => link.bind (mendLink terminals n.uid)
    flows := n.flows.map fun flow => flow.bind (mendFlow terminals n.uid) }

def linkProblems (terminals : List (Uid × Terminal)) (d : Definition) (n : Node) : List Problem :=
  (fitted d.inputs.length n.links).zipIdx.filterMap fun entry => entry.1.bind fun link =>
    if (mendLink terminals n.uid link).isNone then some (.danglingLink entry.2 link) else none

def flowProblems (terminals : List (Uid × Terminal)) (n : Node) : List Problem :=
  n.flows.zipIdx.filterMap fun entry => entry.1.bind fun target =>
    if (mendFlow terminals n.uid target).isNone then some (.danglingFlow entry.2 target) else none

/-- The node with live connections only, its ports and literals in line with its definition. -/
def restored (terminals : List (Uid × Terminal)) (d : Definition) (n : Node) : Node :=
  (((mended terminals d n).layFlows d).conform d).settle d

/-- The problems that restoring a node mends, in the order of its ports and then its literals. -/
def restoreProblems (terminals : List (Uid × Terminal)) (d : Definition) (n : Node) :
    List Problem :=
  let laid := (mended terminals d n).layFlows d
  linkProblems terminals d n ++ flowProblems terminals n ++
    (laidOut d (mended terminals d n).flows).2.map .droppedFlow ++
    (misfits d 0 (laid.conform d).values).map .misfit

end Node

namespace Graph

def restoreConnections (c : Catalog) (g : Graph) : Graph × List Diagnostic :=
  let terminals := g.terminals c
  (g.mapNodes fun n =>
    match c.find? n.fullName with
    | some d => n.restored terminals d
    | none => n,
   g.nodes.flatMap fun n =>
    match c.find? n.fullName with
    | some d => (n.restoreProblems terminals d).map fun problem => ⟨n.uid, problem⟩
    | none => [])

def removeComments (g : Graph) : Graph :=
  { g with nodes := g.nodes.filter fun n => n.kind ≠ .comment }

/-- The repaired graph that is compiled, and a diagnostic for each repair. -/
def snapshot (c : Catalog) (g : Graph) : Graph × List Diagnostic :=
  let defined := g.removeComments.removeUndefined c
  let resolved := defined.1.removeUnresolved
  let restored := resolved.1.restoreConnections c
  let acyclic := restored.1.breakFlowCycles
  (acyclic.1, defined.2 ++ resolved.2 ++ restored.2 ++ acyclic.2)

end Graph

end ScriptGraph
