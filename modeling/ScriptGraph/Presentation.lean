import ScriptGraph.Graph
import ScriptGraph.Catalog.Intrinsic
import ScriptGraph.Text.Segment

/-!
How nodes are presented: the ports they offer for connection, and their titles.
-/

set_option autoImplicit false
set_option relaxedAutoImplicit false

namespace ScriptGraph

/-- Kinds of nodes that are presented in a way of their own. -/
inductive Manner where
  | standard
  /-- Access to a variable of another program by name. -/
  | remoteVariable
  /-- An event sent to another program by name. -/
  | remoteEvent
  /-- The variable for the return value. -/
  | returnValue
deriving DecidableEq, Repr

namespace Manner

def table : List (String × Manner) :=
  let receiver := "VRCUdonCommonInterfacesIUdonEventReceiver."
  [(receiver ++ "__GetProgramVariable__SystemString__SystemObject", .remoteVariable),
    (receiver ++ "__SetProgramVariable__SystemString_SystemObject__SystemVoid", .remoteVariable),
    (receiver ++ "__GetProgramVariableType__SystemString__SystemType", .remoteVariable),
    (receiver ++ "__SendCustomEvent__SystemString__SystemVoid", .remoteEvent),
    (receiver ++ "__SendCustomEventDelayedSeconds__SystemString_SystemSingle_" ++
      "VRCUdonCommonEnumsEventTiming__SystemVoid", .remoteEvent),
    (receiver ++ "__SendCustomEventDelayedFrames__SystemString_SystemInt32_" ++
      "VRCUdonCommonEnumsEventTiming__SystemVoid", .remoteEvent),
    (receiver ++ "__SendCustomNetworkEvent__VRCUdonCommonInterfacesNetworkEventTarget_" ++
      "SystemString__SystemVoid", .remoteEvent),
    (Kind.setReturnValueName, .returnValue)]

def ofName (fullName : String) : Manner :=
  (table.lookup fullName).getD .standard

/-- The variable that a node presented in this way has to be bound to: name and type. -/
def internalVariable? : Manner → Option (String × String)
  | .returnValue => some (returnVariableName, objectType)
  | _ => none

end Manner

/-- The ports of a node that may be connected. -/
structure Ports where
  flowInput : Bool
  flowOutputs : Nat
  valueInputs : List Nat
  valueOutputs : Nat
deriving DecidableEq, Repr

namespace Ports

def between (first last : Nat) : List Nat :=
  (List.range last).drop first

/-- The inputs that may be linked, pointers aside. The literal that binds a node to its variable
is not among them, nor are the inputs of declarations, events and literals without input. -/
def visibleInputs (d : Definition) (n : Node) : List Nat :=
  let count := d.inputs.length
  match d.kind.access?, Manner.ofName n.fullName with
  | some .get, _ | some .change, _ => []
  | some .set, _ | some .returned, _ => between 1 (min count 2)
  | none, .returnValue => between (min count 1) count
  | none, _ =>
    if d.isEvent || n.isVariable then []
    else match d.kind with
      | .nullConstant | .thisConstant | .comment => []
      | _ => between 0 count

def isPointer (type : Option String) : Bool :=
  type.any fun name => name.toList.contains '*'

def of (d : Definition) (n : Node) : Ports where
  flowInput := d.hasFlowInput
  flowOutputs := Node.flowPorts d n.flows
  valueInputs := (visibleInputs d n).filter fun index => !isPointer (d.inputType index)
  valueOutputs := d.outputs.length

end Ports

structure Title where
  title : String
  subtitle : Option String
deriving DecidableEq, Repr

namespace Title

/-- The method named between the first separators of a full name, in words. -/
def methodWords (rest : List Char) : List Char :=
  Text.trimmed ((Text.before ['_', '_'] rest).map fun c => if c = '_' then ' ' else c)

def ofDefinition (d : Definition) : Title :=
  if d.isEvent then ⟨d.name, some "Event"⟩
  else
    let declaring := d.type.getD (String.ofList (Text.before ['.'] d.fullName.toList))
    if d.name = "ctor" then ⟨"Constructor", some declaring⟩
    else match Text.cutAt? ['_', '_'] d.fullName.toList with
      | none => ⟨d.name, none⟩
      | some (_, rest) =>
        let words := match methodWords rest with
          | [] => d.name.toList
          | method => Text.capitalized method
        ⟨String.ofList ((Text.afterPrefix? "Op ".toList words).getD words), some declaring⟩

def symbolInput? (d : Definition) : Option Nat :=
  d.inputs.findIdx? fun p => p.type = some textType

def of (d : Definition) (n : Node) (g : Graph) : Title :=
  match n.access?, g.targetName? n with
  | some .set, some name => ⟨"Set " ++ name, none⟩
  | some .change, some name => ⟨name ++ " Change", none⟩
  | some .get, some name => ⟨name, none⟩
  | some .returned, some _ => ⟨d.name, none⟩
  | _, _ =>
    let plain := ofDefinition d
    match Manner.ofName n.fullName with
    | .remoteVariable | .remoteEvent =>
      match (symbolInput? d).bind fun index => n.values[index]?.bind Value.text? with
      | some symbol =>
        if symbol.isEmpty then plain else { plain with title := plain.title ++ " '" ++ symbol ++ "'" }
      | none => plain
    | .standard =>
      if d.kind = .customEvent then
        match n.values[0]?.bind Value.text? with
        | some name => { plain with title := name }
        | none => plain
      else plain
    | .returnValue => plain

end Title

end ScriptGraph
