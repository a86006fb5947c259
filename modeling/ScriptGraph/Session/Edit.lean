import ScriptGraph.Editing.Connection
import ScriptGraph.Editing.Literal
import ScriptGraph.Session

/-!
Editing the graph of a session in place. A refused edit leaves the session as it was.
-/

set_option autoImplicit false
set_option relaxedAutoImplicit false

namespace ScriptGraph.Session

def adopt (s : Session) (result : Except EditError Graph) : Outcome Unit :=
  s.editing <| match result with
    | .error error => (.error error, s)
    | .ok graph => (.ok (), s.touched graph)

def adoptWith {α : Type} (s : Session) (result : Except EditError (α × Graph)) : Outcome α :=
  s.editing <| match result with
    | .error error => (.error error, s)
    | .ok (given, graph) => (.ok given, s.touched graph)

/-- Takes over a graph if it has changed; tells whether it has. -/
def adoptChange (s : Session) (result : Except EditError (Option Graph)) : Outcome Bool :=
  s.editing <| match result with
    | .error error => (.error error, s)
    | .ok none => (.ok false, s)
    | .ok (some graph) => (.ok true, s.touched graph)

def removeNode (s : Session) (uid : Uid) : Outcome (List Uid) :=
  s.adoptWith (s.graph.removeNode s.catalog uid)

/-- Removes several nodes; those that are gone already are passed over, and it is no edit to remove
none. -/
def removeNodes (s : Session) (uids : List Uid) : Outcome (List Uid) :=
  match s.graph.removeEach s.catalog uids.eraseDups with
  | ([], _) => (.ok [], s)
  | (removed, graph) => s.adoptWith (.ok (removed, graph))

def moveNode (s : Session) (uid : Uid) (position : Position) : Outcome Unit :=
  s.editing <| match s.graph.move uid position with
    | .error error => (.error error, s)
    | .ok graph => (.ok (), { s with graph })

def connectValue (s : Session) (source : Uid) (output : Nat) (target : Uid) (input : Nat) :
    Outcome Unit :=
  s.adopt (s.graph.connectValue s.catalog source output target input)

def disconnectValue (s : Session) (target : Uid) (input : Nat) : Outcome Bool :=
  s.adoptChange (s.graph.disconnectValue target input)

def connectFlow (s : Session) (source : Uid) (port : Nat) (target : Uid) : Outcome Unit :=
  s.adopt (s.graph.connectFlow s.catalog source port target)

def disconnectFlow (s : Session) (source : Uid) (port : Nat) : Outcome Bool :=
  s.adoptChange (s.graph.disconnectFlow s.catalog source port)

def renameVariable (s : Session) (uid : Uid) (name : String) : Outcome String :=
  s.editing <| match s.graph.renameVariable uid name with
    | .error error => (.error error, s)
    | .ok (name, none) => (.ok name, s)
    | .ok (name, some graph) => (.ok name, s.touched graph)

def setValue (s : Session) (uid : Uid) (index : Nat) (value : Value) : Outcome Unit :=
  match s.adoptChange (s.graph.setValue s.catalog uid index value) with
  | (.error error, s) => (.error error, s)
  | (.ok _, s) => (.ok (), s)

def setOverload (s : Session) (uid : Uid) (fullName : String) : Outcome Unit :=
  s.adopt (s.graph.setOverload s.catalog uid fullName)

def setUpdateOrder (s : Session) (updateOrder : Int32) : Outcome Unit :=
  s.adopt (.ok { s.graph with updateOrder })

def renewName (s : Session) : Outcome Unit :=
  let (name, supply) := s.supply.draw
  s.editing (.ok (), { s.touched { s.graph with name } with supply })

/-! ## Layout -/

def saveRecord (s : Session) (record : Json) : Outcome Unit :=
  s.editing (.ok (), { s with layout := s.layout.save record })

def removeRecord (s : Session) (uid : String) : Outcome Bool :=
  s.editing (.ok (s.layout.find? uid).isSome, { s with layout := s.layout.remove uid })

/-! ## Presentation -/

def title (s : Session) (uid : Uid) : Except EditError Title :=
  (s.graph.placed s.catalog uid).map fun placed => .of placed.2 placed.1 s.graph

def ports (s : Session) (uid : Uid) : Except EditError Ports :=
  (s.graph.placed s.catalog uid).map fun placed => .of placed.2 placed.1

end ScriptGraph.Session
