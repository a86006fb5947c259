import ScriptGraph.Node
import ScriptGraph.Text.Alphanumeric
import ScriptGraph.Text.Numeral

/-!
Variables: the nodes that declare them, the nodes bound to them, and the choice of their names.
-/

set_option autoImplicit false
set_option relaxedAutoImplicit false

namespace ScriptGraph

/-- How a shared variable is interpolated for others. -/
inductive SyncMode where
  | none
  | linear
  | smooth
deriving DecidableEq, Repr

namespace SyncMode

def name : SyncMode → String
  | .none => "none"
  | .linear => "linear"
  | .smooth => "smooth"

private def small (text : String) : List Char :=
  text.toList.map Char.toLower

/-- The mode a text names, whatever the case of its ASCII letters; other texts name no mode. -/
def ofText (text : String) : SyncMode :=
  if small text = "linear".toList then .linear
  else if small text = "smooth".toList then .smooth
  else .none

end SyncMode

/-! ## The inputs of a declaration -/

def valueInput : Nat := 0
def nameInput : Nat := 1
def publicInput : Nat := 2
def syncedInput : Nat := 3
def syncModeInput : Nat := 4

namespace Node

def isVariable (n : Node) : Bool := n.kind = .variable

def variableType? (n : Node) : Option String :=
  Text.stripStart? Kind.variablePrefix n.fullName

def variableName? (n : Node) : Option String :=
  if n.isVariable then n.values[nameInput]?.bind Value.text? else none

def isPublic (n : Node) : Bool :=
  (n.values[publicInput]?.bind Value.bool?).getD false

def isSynced (n : Node) : Bool :=
  (n.values[syncedInput]?.bind Value.bool?).getD false

def syncMode (n : Node) : SyncMode :=
  ((n.values[syncModeInput]?.bind Value.text?).map SyncMode.ofText).getD .none

/-- The use that the node makes of the variable it is bound to. -/
def access? (n : Node) : Option Access := n.kind.access?

/-- The uid of the variable that the node is bound to: its first literal, if that is a text that
is not empty. -/
def target? (n : Node) : Option Uid :=
  if n.access?.isSome then
    (n.values[0]?.bind Value.text?).filter fun uid => !uid.isEmpty
  else none

end Node

/-- A variable as it is listed. -/
structure Variable where
  uid : Uid
  name : String
  type : String
  default : Value
  isPublic : Bool
  isSynced : Bool
  syncMode : SyncMode
deriving DecidableEq

/-- The variable that a node declares, if it gives it a name. -/
def Node.variable? (n : Node) : Option Variable := do
  return {
    uid := n.uid
    name := ← n.variableName?
    type := ← n.variableType?
    default := n.values[valueInput]?.getD .null
    isPublic := n.isPublic
    isSynced := n.isSynced
    syncMode := n.syncMode }

/-! ## Names -/

def defaultVariableName : String := "newVariable"

/-- The letters, numbers and underscores of a name; if there are none, the default name. -/
def sanitizedName (name : String) : String :=
  let kept := name.toList.filter fun c => Text.isAlphanumeric c || c = '_'
  if kept.isEmpty then defaultVariableName else String.ofList kept

/-- The name tried after one that is taken: a digit at the end is counted up, ten taking two
digits; other names get `_1` appended. -/
def nextName (name : List Char) : List Char :=
  match name.getLast?.bind Text.digitValue? with
  | some digit => name.dropLast ++ (Text.digits 10 (digit + 1)).map Text.digitChar
  | none => name ++ ['_', '1']

/-- The first name that is not taken, of at most `steps` successors of a name. -/
def freeName (taken : List String) : Nat → String → String
  | 0, name => name
  | steps + 1, name =>
    if taken.contains name then freeName taken steps (String.ofList (nextName name.toList))
    else name

/-- A name like the given one that is not taken. The names tried are pairwise distinct, so one
more trial than there are taken names is enough. -/
def unusedNameLike (taken : List String) (name : String) : String :=
  freeName taken taken.length name

end ScriptGraph
