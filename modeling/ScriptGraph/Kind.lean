import ScriptGraph.Text.Casing
import ScriptGraph.Text.Segment

/-!
The names of node kinds: the families that share a prefix, the kinds with a meaning of their own,
and the names derived from them.
-/

set_option autoImplicit false
set_option relaxedAutoImplicit false

namespace ScriptGraph

/-- What a node is, as far as its full name tells. -/
inductive Kind where
  | event
  | customEvent
  | changeEvent
  | block
  | branch
  | isValid
  | forLoop
  | foreachLoop
  | whileLoop
  | getVariable
  | setVariable
  | setReturnValue
  | variable
  | nullConstant
  | thisConstant
  | constant
  | comment
  /-- A method of the host. -/
  | call
deriving DecidableEq, Repr

/-- How a node that is bound to a variable uses it. -/
inductive Access where
  | get
  | set
  | change
  | returned
deriving DecidableEq, Repr

namespace Kind

def eventPrefix : String := "Event_"
def variablePrefix : String := "Variable_"
def constantPrefix : String := "Const_"

def customEventName : String := "Event_Custom"
def changeEventName : String := "Event_OnVariableChange"
def blockName : String := "Block"
def branchName : String := "Branch"
def isValidName : String := "Is_Valid"
def forName : String := "For"
def foreachName : String := "Foreach"
def whileName : String := "While"
def getVariableName : String := "Get_Variable"
def setVariableName : String := "Set_Variable"
def setReturnValueName : String := "Set_ReturnValue"
def nullConstantName : String := "Const_Null"
def thisConstantName : String := "Const_This"
def commentName : String := "Comment"

def named : List (String × Kind) := [
  (customEventName, .customEvent), (changeEventName, .changeEvent), (blockName, .block),
  (branchName, .branch), (isValidName, .isValid), (forName, .forLoop),
  (foreachName, .foreachLoop), (whileName, .whileLoop), (getVariableName, .getVariable),
  (setVariableName, .setVariable), (setReturnValueName, .setReturnValue),
  (nullConstantName, .nullConstant), (thisConstantName, .thisConstant), (commentName, .comment)]

/-- The kind of a full name. -/
def ofName (name : String) : Kind :=
  match named.lookup name with
  | some kind => kind
  | none =>
    if Text.startsWith eventPrefix name then .event
    else if Text.startsWith variablePrefix name then .variable
    else if Text.startsWith constantPrefix name then .constant
    else .call

def isEvent : Kind → Bool
  | .event | .customEvent | .changeEvent => true
  | _ => false

/-- Whether nodes of the kind always have two flow outputs, or at least two for a block. -/
def isForked : Kind → Bool
  | .block | .branch | .isValid | .forLoop | .foreachLoop | .whileLoop => true
  | _ => false

/-- The use a node of the kind makes of the variable it is bound to. -/
def access? : Kind → Option Access
  | .getVariable => some .get
  | .setVariable => some .set
  | .changeEvent => some .change
  | .setReturnValue => some .returned
  | _ => none

end Kind

/-- The full name of the node that makes a use of a variable. -/
def Access.fullName : Access → String
  | .get => Kind.getVariableName
  | .set => Kind.setVariableName
  | .change => Kind.changeEventName
  | .returned => Kind.setReturnValueName

/-- The entry point of an event: its name after the family prefix, its first letter small, after
an underscore. -/
def eventEntryName (fullName : String) : String :=
  let stem := (Text.afterPrefix? Kind.eventPrefix.toList fullName.toList).getD fullName.toList
  String.ofList ('_' :: Text.uncapitalized stem)

def changeEventPrefix : String := "_onVarChange_"

def changeEntryName (variableName : String) : String :=
  changeEventPrefix ++ variableName

def internalPrefix : String := "__"

/-- Whether a variable name is reserved for variables made by the library itself. -/
def isInternalName (name : String) : Bool :=
  Text.startsWith internalPrefix name

/-- The variable that holds the return value of a program. -/
def returnVariableName : String := "__returnValue"

/-- What the names of all overloads of a method start with; literals have no overloads. -/
def baseName? (fullName : String) : Option String :=
  if Text.startsWith Kind.constantPrefix fullName then none
  else if Text.startsWith "Type_" fullName then some "Type_"
  else if Text.startsWith Kind.variablePrefix fullName then some Kind.variablePrefix
  else
    match Text.cutAt? ['_', '_'] fullName.toList with
    | some (declaring, rest) =>
      some (String.ofList (declaring ++ ['_', '_'] ++ Text.before ['_', '_'] rest ++ ['_', '_']))
    | none => some fullName

end ScriptGraph
