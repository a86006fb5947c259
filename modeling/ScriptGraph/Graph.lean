import ScriptGraph.Node.Variable

/-!
Graphs: the nodes of one program in order, with what holds for the program as a whole.
-/

set_option autoImplicit false
set_option relaxedAutoImplicit false

namespace ScriptGraph

structure Graph where
  name : String
  description : String
  updateOrder : Int32
  version : UInt32
  nodes : List Node
deriving DecidableEq

namespace Graph

def empty (name : String) : Graph := ⟨name, "", 0, 1, []⟩

def find? (g : Graph) (uid : Uid) : Option Node :=
  g.nodes.find? fun n => n.uid == uid

def contains (g : Graph) (uid : Uid) : Bool := (g.find? uid).isSome

def uids (g : Graph) : List Uid := g.nodes.map Node.uid

def eventNodes (g : Graph) : List Node := g.nodes.filter Node.isEvent

def push (g : Graph) (n : Node) : Graph := { g with nodes := g.nodes ++ [n] }

def remove (g : Graph) (uid : Uid) : Graph :=
  { g with nodes := g.nodes.eraseP fun n => n.uid == uid }

def updateFirst (uid : Uid) (change : Node → Node) : List Node → List Node
  | [] => []
  | n :: rest => if n.uid = uid then change n :: rest else n :: updateFirst uid change rest

def update (g : Graph) (uid : Uid) (change : Node → Node) : Graph :=
  { g with nodes := updateFirst uid change g.nodes }

def mapNodes (g : Graph) (change : Node → Node) : Graph :=
  { g with nodes := g.nodes.map change }

end Graph

def Node.forget (n : Node) (uid : Uid) : Node :=
  { n with
    links := n.links.map fun link => link.filter fun l => l.node ≠ uid
    flows := n.flows.map fun flow => flow.filter fun target => target ≠ uid }

namespace Graph

def forget (g : Graph) (uid : Uid) : Graph := g.mapNodes fun n => n.forget uid

/-- The number of connected flow outputs. -/
def flowEdgeCount (g : Graph) : Nat := presentCount (g.nodes.flatMap Node.flows)

def targetsOf (g : Graph) (uid : Uid) : List Uid :=
  ((g.find? uid).map Node.targets).getD []

/-- Adds to a list the entries of another that it lacks; gives the result and what was added. -/
def addNew : List Uid → List Uid → List Uid × List Uid
  | seen, [] => (seen, [])
  | seen, uid :: rest =>
    if seen.contains uid then addNew seen rest
    else
      let result := addNew (uid :: seen) rest
      (result.1, uid :: result.2)

/-- Follows flows from the pending nodes, of which each step visits one. -/
def follow (g : Graph) : Nat → List Uid → List Uid → List Uid
  | 0, _, seen => seen
  | _ + 1, [], seen => seen
  | steps + 1, uid :: pending, seen =>
    let next := addNew seen (g.targetsOf uid)
    g.follow steps (next.2 ++ pending) next.1

/-- The nodes at the ends of the flow paths from a node that have at least one step. A node is
pending at most once, so one more step than there are flow edges is enough. -/
def flowSuccessors (g : Graph) (uid : Uid) : List Uid :=
  g.follow (g.flowEdgeCount + 1) [uid] []

/-! ## Variables -/

/-- The nodes that declare a named variable, those with reserved names after the others. -/
def variableNodes (g : Graph) : List Node :=
  let named := g.nodes.filter fun n => n.variableName?.isSome
  named.filter (fun n => !n.variableName?.any isInternalName) ++
    named.filter fun n => n.variableName?.any isInternalName

def declaredVariables (g : Graph) : List Variable := g.variableNodes.filterMap Node.variable?

def variableNames (g : Graph) : List String := g.variableNodes.filterMap Node.variableName?

def findVariable? (g : Graph) (name : String) : Option Node :=
  g.nodes.find? fun n => n.variableName? = some name

/-- The name of the variable that a node is bound to, if it exists. -/
def targetName? (g : Graph) (n : Node) : Option String :=
  n.target?.bind fun uid => (g.find? uid).bind Node.variableName?

/-- The nodes bound to a variable. -/
def dependents (g : Graph) (uid : Uid) : List Uid :=
  (g.nodes.filter fun n => n.target? = some uid).map Node.uid

/-- A name like the given one that no variable of the graph has. -/
def unusedNameLike (g : Graph) (name : String) : String :=
  ScriptGraph.unusedNameLike g.variableNames name

end Graph

end ScriptGraph
