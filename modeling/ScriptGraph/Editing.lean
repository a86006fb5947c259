import ScriptGraph.Catalog
import ScriptGraph.EditError
import ScriptGraph.Graph

/-!
Edits of a graph: what all of them look up, the layout of flows after an edit, and the removal of
nodes.
-/

set_option autoImplicit false
set_option relaxedAutoImplicit false

namespace ScriptGraph

def Catalog.get (c : Catalog) (fullName : String) : Except EditError Definition :=
  match c.find? fullName with
  | some d => .ok d
  | none => .error (.absentDefinition fullName)

namespace Graph

def get (g : Graph) (uid : Uid) : Except EditError Node :=
  match g.find? uid with
  | some n => .ok n
  | none => .error (.absentNode uid)

def placed (g : Graph) (c : Catalog) (uid : Uid) : Except EditError (Node × Definition) := do
  let n ← g.get uid
  return (n, ← c.get n.fullName)

def relayout (g : Graph) (c : Catalog) (uid : Uid) : Graph :=
  g.update uid fun n =>
    match c.find? n.fullName with
    | some d => n.layFlows d
    | none => n

def relayoutBlocks (g : Graph) (c : Catalog) : Graph :=
  match c.find? Kind.blockName with
  | some d => g.mapNodes fun n => if n.fullName = Kind.blockName then n.layFlows d else n
  | none => g

def move (g : Graph) (uid : Uid) (position : Position) : Except EditError Graph := do
  let _ ← g.get uid
  return g.update uid fun n => { n with position }

/-! ## Removal -/

def extract (g : Graph) (uid : Uid) : Graph := (g.remove uid).forget uid

/-- The nodes that go when a node is removed: with a variable, all nodes bound to it. -/
def doomed (g : Graph) (n : Node) : List Uid :=
  n.uid :: if n.isVariable then g.dependents n.uid else []

/-- Removes a node with all that depends on it; gives what was removed. -/
def removeNode (g : Graph) (c : Catalog) (uid : Uid) : Except EditError (List Uid × Graph) := do
  let doomed := g.doomed (← g.get uid)
  return (doomed, (doomed.foldl extract g).relayoutBlocks c)

/-- Removes nodes one after the other, those that are gone by then aside. -/
def removeEach (c : Catalog) : Graph → List Uid → List Uid × Graph
  | g, [] => ([], g)
  | g, uid :: rest =>
    match g.removeNode c uid with
    | .error _ => removeEach c g rest
    | .ok (removed, g) =>
      let result := removeEach c g rest
      (removed ++ result.1, result.2)

end Graph

end ScriptGraph
