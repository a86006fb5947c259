import ScriptGraph.Editing.Literal
import ScriptGraph.Presentation
import ScriptGraph.Session

/-!
Adding nodes to the graph of a session.
-/

set_option autoImplicit false
set_option relaxedAutoImplicit false

namespace ScriptGraph.Session

def place (s : Session) (node : Uid → Node) : Uid × Session :=
  let (uid, supply) := s.supply.draw
  (uid, { s with graph := s.graph.push (node uid), supply })

def declaration (d : Definition) (name : String) (isPublic : Bool) (uid : Uid) : Node :=
  let n := Node.fresh uid d
  { n with values := (n.values.set nameInput (.text name)).set publicInput (.bool isPublic) }

def declare (s : Session) (d : Definition) (name : String) (isPublic : Bool) : Outcome Uid :=
  if d.inputs.length ≤ publicInput then (.error (.missingEntry d.fullName), s)
  else
    let (uid, t) := s.place (declaration d (s.graph.unusedNameLike name) isPublic)
    (.ok uid, { t with dirty := true })

/-- Declares a variable of a type. Names reserved for the library are refused. -/
def addVariable (s : Session) (type name : String) (isPublic : Bool) : Outcome Uid :=
  s.editing <| match s.catalog.get (Kind.variablePrefix ++ type) with
    | .error error => (.error error, s)
    | .ok d =>
      let name := sanitizedName name
      if isInternalName name then (.error (.reservedName name), s) else s.declare d name isPublic

/-- The variable with a name reserved for the library, declared if it is not there. -/
def internalVariable (s : Session) (name type : String) : Outcome Uid :=
  match s.graph.findVariable? name with
  | some n => (.ok n.uid, s)
  | none =>
    match s.catalog.get (Kind.variablePrefix ++ type) with
    | .error error => (.error error, s)
    | .ok d => s.declare d name false

/-- Binds a node to the variable that nodes of its kind have to be bound to, unless it is bound to
a node of the graph. -/
def prepare (s : Session) (uid : Uid) : Outcome Unit :=
  match s.graph.placed s.catalog uid with
  | .error error => (.error error, s)
  | .ok (n, _) =>
    match (Manner.ofName n.fullName).internalVariable? with
    | none => (.ok (), s)
    | some (name, type) =>
      if n.target?.any s.graph.contains then (.ok (), s)
      else
        match s.internalVariable name type with
        | (.error error, s) => (.error error, s)
        | (.ok target, s) =>
          (.ok (), { s with graph := s.graph.update uid fun n =>
            { n with values := n.values.set 0 (.text target) } })

/-- Whether the graph has an event of which there may be one only. -/
def hasEvent (s : Session) (d : Definition) : Bool :=
  d.kind = .event && s.graph.nodes.any fun n => n.fullName == d.fullName

/-- Adds a node of a definition, and the variable it needs. If that variable cannot be declared,
the node stays. -/
def addPlain (s : Session) (d : Definition) (position : Position) : Outcome Uid :=
  let (uid, s) := s.place fun uid => { Node.fresh uid d with position }
  match s.prepare uid with
  | (.error error, s) => (.error error, s)
  | (.ok (), s) => (.ok uid, { s with dirty := true })

/-- Adds a node. A declaration is added like any variable; most events may be there once only. -/
def addNode (s : Session) (fullName : String) (position : Position) : Outcome Uid :=
  s.editing <| match s.catalog.get fullName with
    | .error error => (.error error, s)
    | .ok d =>
      match Text.stripStart? Kind.variablePrefix fullName with
      | some type =>
        match s.addVariable type defaultVariableName false with
        | (.error error, s) => (.error error, s)
        | (.ok uid, s) =>
          (.ok uid, { s with graph := s.graph.update uid fun n => { n with position } })
      | none =>
        if s.hasEvent d then (.error (.duplicateEvent d.name), s) else s.addPlain d position

/-- Why a node that makes a use of a variable may not be added. -/
def checkAccess (s : Session) (access : Access) (variableUid : Uid) : Except EditError Definition := do
  if !(s.graph.find? variableUid).any Node.isVariable then throw (.notVariable variableUid)
  if access = .change then s.graph.checkSingleChange variableUid none
  s.catalog.get access.fullName

def addAccess (s : Session) (access : Access) (variableUid : Uid) (position : Position) :
    Outcome Uid :=
  s.editing <| match s.checkAccess access variableUid with
    | .error error => (.error error, s)
    | .ok d =>
      let (uid, s) := s.place fun uid =>
        let n := Node.fresh uid d
        { n with position, values := n.values.set 0 (.text variableUid) }
      (.ok uid, { s with dirty := true })

end ScriptGraph.Session
