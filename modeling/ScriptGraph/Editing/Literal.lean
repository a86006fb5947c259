import ScriptGraph.Editing

/-!
Changing what a node itself says: its literals, the name of a variable, and the overload of a
method. An edit that changes nothing gives no graph.
-/

set_option autoImplicit false
set_option relaxedAutoImplicit false

namespace ScriptGraph.Graph

def otherNames (g : Graph) (uid : Uid) : List String :=
  (g.variableNodes.filter fun n => n.uid ≠ uid).filterMap Node.variableName?

def renameVariable (g : Graph) (uid : Uid) (name : String) :
    Except EditError (String × Option Graph) := do
  let n ← g.get uid
  match n.variableName? with
  | none => throw (.notVariable uid)
  | some current =>
    if isInternalName current then throw (.reservedName current)
    let name := sanitizedName name
    if isInternalName name then throw (.reservedName name)
    if name = current then return (current, none)
    let unused := ScriptGraph.unusedNameLike (g.otherNames uid) name
    return (unused, some (g.update uid fun n =>
      { n with values := n.values.set nameInput (.text unused) }))

/-- Refuses a second event for the changes of a variable, the node `except` aside. -/
def checkSingleChange (g : Graph) (variableUid : Uid) (except : Option Uid) :
    Except EditError Unit :=
  if g.nodes.any fun n =>
      n.kind = .changeEvent && n.target? = some variableUid && some n.uid ≠ except then
    .error (.duplicateEvent ("Variable Change (" ++ variableUid ++ ")"))
  else .ok ()

/-- The value that is stored when an input is given a value: the way a variable is shared is
brought into its usual form, other values have to fit their input. -/
def storable (n : Node) (d : Definition) (index : Nat) (value : Value) : Except EditError Value :=
  let refused := EditError.misfit n.uid index ((d.inputType index).getD "") value
  if n.isVariable && index = syncModeInput then
    match value.text? with
    | some mode => .ok (.text (SyncMode.ofText mode).name)
    | none => .error refused
  else if value.fits (d.inputType index) then .ok value
  else .error refused

def storeValue (g : Graph) (n : Node) (d : Definition) (index : Nat) (value : Value) :
    Except EditError Graph := do
  let value ← storable n d index value
  if n.kind = .changeEvent ∧ index = 0 then
    match value.text? with
    | some variableUid => g.checkSingleChange variableUid (some n.uid)
    | none => pure ()
  if n.values.length ≤ index then throw (.missingEntry n.fullName)
  return g.update n.uid fun n => { n with values := n.values.set index value }

/-- Gives an input a literal. The name of a variable is given by renaming it. -/
def setValue (g : Graph) (c : Catalog) (uid : Uid) (index : Nat) (value : Value) :
    Except EditError (Option Graph) := do
  let (n, d) ← g.placed c uid
  if d.inputs.length ≤ index then throw (.absentPort uid .input index)
  if n.isVariable && index = nameInput then
    match value.text? with
    | some name => return (← g.renameVariable uid name).2
    | none => throw (.misfit uid index ((d.inputType index).getD "") value)
  else return some (← g.storeValue n d index value)

/-- The node as a node of another definition; its literals are cut, filled up and made to fit. -/
def switched (d : Definition) (n : Node) : Node :=
  ({ n with fullName := d.fullName, values := n.values.take d.inputs.length }.conform d).settle d

/-- The node without links to outputs of a node that it does not have. -/
def dropLinks (uid : Uid) (outputs : Nat) (n : Node) : Node :=
  { n with links := n.links.map fun link => link.filter fun l =>
      !(l.node = uid && outputs ≤ l.output) }

def setOverload (g : Graph) (c : Catalog) (uid : Uid) (fullName : String) :
    Except EditError Graph := do
  let (n, _) ← g.placed c uid
  match (c.overloads n.fullName).find? fun d => d.fullName == fullName with
  | none => throw (.notOverload n.fullName fullName)
  | some d => return (g.update uid (switched d)).mapNodes (dropLinks uid d.outputs.length)

end ScriptGraph.Graph
