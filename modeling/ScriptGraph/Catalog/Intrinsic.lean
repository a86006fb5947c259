import ScriptGraph.Catalog

/-!
The definitions that compiling itself gives a meaning to, and the methods it calls.
-/

set_option autoImplicit false
set_option relaxedAutoImplicit false

namespace ScriptGraph

/-! ## Methods of the host that control flow is built from -/

def lessThanMethod : String :=
  "SystemInt32.__op_LessThan__SystemInt32_SystemInt32__SystemBoolean"
def additionMethod : String :=
  "SystemInt32.__op_Addition__SystemInt32_SystemInt32__SystemInt32"
def arrayLengthMethod : String := "SystemObjectArray.__get_Length__SystemInt32"
def arrayGetMethod : String := "SystemObjectArray.__Get__SystemInt32__SystemObject"
def isValidMethod : String := "VRCSDKBaseUtilities.__IsValid__SystemObject__SystemBoolean"
def sendEventMethod : String :=
  "VRCUdonCommonInterfacesIUdonEventReceiver.__SendCustomEvent__SystemString__SystemVoid"

def playerType : String := "VRCSDKBaseVRCPlayerApi"

/-- The types that have literals. -/
def literalTypes : List String :=
  [boolType, int32Type, int64Type, singleType, doubleType, textType]

def variableTypes : List String :=
  literalTypes ++ [objectType, arrayType, "UnityEngineGameObject", "UnityEngineTransform",
    playerType, behaviourType]

namespace Definition

def bare (fullName : String) : Definition :=
  ⟨fullName, fullName, none, [], [], false, [], []⟩

def withFlow (d : Definition) (names : List String) : Definition :=
  { d with flow := true, outputFlowNames := names }

end Definition

namespace Catalog

private def port (name type : String) (default : Value := .null) : Parameter :=
  ⟨name, some type, default⟩

/-- The events without inputs: name and outputs. -/
def simpleEvents : List (String × List Parameter) := [
  ("Start", []), ("Update", []), ("LateUpdate", []), ("FixedUpdate", []), ("Interact", []),
  ("OnEnable", []), ("OnDisable", []), ("OnDestroy", []), ("OnDeserialization", []),
  ("OnPlayerJoined", [port "player" playerType]), ("OnPlayerLeft", [port "player" playerType])]

def simpleEvent (name : String) (outputs : List Parameter) : Definition :=
  { Definition.bare (Kind.eventPrefix ++ name) with name, outputs }.withFlow [""]

def variableOf (type : String) : Definition :=
  { Definition.bare (Kind.variablePrefix ++ type) with
    type := some type
    inputs := [port "value" type (.defaultFor (some type)),
      port "name" textType (.text "newVariable"), port "isPublic" boolType (.bool false),
      port "isSynced" boolType (.bool false), port "syncMode" textType (.text "none")] }

def literalOf (type : String) : Definition :=
  { Definition.bare (Kind.constantPrefix ++ type) with
    type := some type
    inputs := [port "value" type (.defaultFor (some type))]
    outputs := [port "value" type] }

def events : List Definition := [
  { Definition.bare Kind.customEventName with
    name := "Custom Event"
    inputs := [port "eventName" textType (.text "customEvent")] }.withFlow [""],
  { Definition.bare Kind.changeEventName with
    name := "Variable Change"
    inputs := [port "variable" textType] }.withFlow [""]]

def controls : List Definition := [
  (Definition.bare Kind.blockName).withFlow ["", ""],
  { Definition.bare Kind.branchName with
    inputs := [port "condition" boolType (.bool false)] }.withFlow ["True", "False"],
  { Definition.bare Kind.forName with
    inputs := [port "start" int32Type (.int32 0), port "end" int32Type (.int32 0),
      port "step" int32Type (.int32 1)]
    outputs := [port "index" int32Type] }.withFlow ["Body", "Exit"],
  { Definition.bare Kind.foreachName with
    inputs := [port "array" arrayType]
    outputs := [port "item" objectType] }.withFlow ["Body", "Exit"],
  { Definition.bare Kind.whileName with
    inputs := [port "condition" boolType (.bool false)] }.withFlow ["Body", "Exit"],
  { Definition.bare Kind.isValidName with
    inputs := [port "object" objectType] }.withFlow ["True", "False"]]

def accesses : List Definition := [
  { Definition.bare Kind.getVariableName with
    name := "Get Variable"
    inputs := [port "variable" textType]
    outputs := [port "value" objectType] },
  { Definition.bare Kind.setVariableName with
    name := "Set Variable"
    inputs := [port "variable" textType, port "value" objectType,
      port "sendChange" boolType (.bool false)] }.withFlow [""],
  { Definition.bare Kind.setReturnValueName with
    name := "Set Return Value"
    inputs := [port "variable" textType, port "value" objectType] }.withFlow [""]]

def specials : List Definition := [
  { Definition.bare Kind.nullConstantName with outputs := [port "null" objectType] },
  { Definition.bare Kind.thisConstantName with
    type := some behaviourType
    outputs := [port "instance" behaviourType] },
  { Definition.bare Kind.commentName with inputs := [port "text" textType (.text "")] }]

/-- All definitions with a meaning of their own. -/
def intrinsics : List Definition :=
  (simpleEvents.map fun event => simpleEvent event.1 event.2) ++ events ++ controls ++ accesses ++
    variableTypes.map variableOf ++ literalTypes.map literalOf ++ specials

def intrinsic : Catalog := (empty.extend intrinsics).1

end Catalog

end ScriptGraph
