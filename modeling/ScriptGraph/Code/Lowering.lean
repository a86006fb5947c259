import ScriptGraph.Catalog.Intrinsic
import ScriptGraph.Code
import ScriptGraph.HeapLayout

/-!
Lowering: the code of every event of a repaired graph. Flows are followed in depth from each
event; a chain ends with a jump to where it continues: the end of the event, the next output of a
block, or the step of a loop. The inputs of a flow node are evaluated right before it, each pure
node at most once for it.
-/

set_option autoImplicit false
set_option relaxedAutoImplicit false

namespace ScriptGraph

/-- What lowering has produced besides code. -/
structure Lowering where
  heap : HeapLayout
  diagnostics : List Diagnostic
  nextLabel : Label
  /-- The code emitted so far for a node and a continuation, by its label. -/
  emitted : List ((Uid × Target) × Label)

namespace Lowering

/-- A step of lowering. -/
abbrev Step (α : Type) := StateT Lowering (Except CompileError) α

/-- An input made available: code that computes it, its slot, and the pure nodes evaluated up to
then. -/
structure Supply where
  code : List Op
  slot : Slot
  evaluated : List Uid

/-- Several inputs made available. -/
structure Supplies where
  code : List Op
  slots : List Slot
  evaluated : List Uid

def newLabel : Step Label := fun s =>
  .ok (s.nextLabel, { s with nextLabel := s.nextLabel + 1 })

def report (uid : Uid) (problem : Problem) : Step Unit := fun s =>
  .ok ((), { s with diagnostics := s.diagnostics ++ [⟨uid, problem⟩] })

def onHeap {α : Type} (allocate : HeapLayout → α × HeapLayout) : Step α := fun s =>
  let (result, heap) := allocate s.heap
  .ok (result, { s with heap })

def onHeapOrFail {α : Type} (allocate : HeapLayout → Except CompileError (α × HeapLayout)) :
    Step α := fun s =>
  match allocate s.heap with
  | .ok (result, heap) => .ok (result, { s with heap })
  | .error error => .error error

def constant (type : String) (value : Value) : Step Slot :=
  onHeap fun h => h.constantSlot type value

def scratch (type : String) : Step Slot :=
  onHeap fun h => h.scratchSlot type

def output (uid : Uid) (index : Nat) : Step Slot :=
  onHeapOrFail fun h => h.outputSlot uid index

def outputs (uid : Uid) (count : Nat) : Step (List Slot) :=
  (List.range count).mapM (output uid)

def variableSlot (uid : Uid) : Step Slot := fun s =>
  match s.heap.findVariable? uid with
  | some slot => .ok (slot, s)
  | none => .error (.absentNode uid)

def present {α : Type} (uid : Uid) : Option α → Step α
  | some value => pure value
  | none => throw (.absentNode uid)

def placed (c : Catalog) (g : Graph) (uid : Uid) : Step (Node × Definition) := do
  let n ← present uid (g.find? uid)
  return (n, ← present uid (c.find? n.fullName))

/-- The type of the constant for a literal: the declared type, or for want of a definite one the
type of the value. -/
def literalType (declared : Option String) (value : Value) : String :=
  match declared with
  | some type => if type = objectType then value.typeName?.getD objectType else type
  | none => value.typeName?.getD objectType

/-- The literal of an input. -/
def literal (n : Node) (d : Definition) (index : Nat) : Value :=
  n.values[index]?.getD (.defaultFor (d.inputType index))

/-- Makes an input available whose declared type is given: what feeds it, or its literal. -/
def inputAs (feed : List Uid → Link → Step Supply) (n : Node) (d : Definition) (index : Nat)
    (declared : Option String) (evaluated : List Uid) : Step Supply := do
  match n.links[index]?.join with
  | some link => feed evaluated link
  | none =>
    let value := literal n d index
    return ⟨[], ← constant (literalType declared value) value, evaluated⟩

def input (feed : List Uid → Link → Step Supply) (n : Node) (d : Definition) (index : Nat)
    (evaluated : List Uid) : Step Supply :=
  inputAs feed n d index (d.inputType index) evaluated

def inputs (feed : List Uid → Link → Step Supply) (n : Node) (d : Definition) :
    List Nat → List Uid → Step Supplies
  | [], evaluated => return ⟨[], [], evaluated⟩
  | index :: rest, evaluated => do
    let first ← input feed n d index evaluated
    let others ← inputs feed n d rest first.evaluated
    return ⟨first.code ++ others.code, first.slot :: others.slots, others.evaluated⟩

/-- The call of a method that a node stands for, after its inputs. -/
def callOf (n : Node) (d : Definition) (supplies : Supplies) : Step (List Op) := do
  let results ← outputs n.uid d.outputs.length
  return supplies.code ++ [.call d.fullName (supplies.slots ++ results)]

def constantOf (n : Node) (d : Definition) : Step Slot :=
  constant ((d.type.or (d.outputType 0)).getD objectType) (n.values[0]?.getD .null)

/-- Makes an output available. The nodes being evaluated are given from the innermost outwards;
an output of one of them closes a cycle and is taken to be null. Their number bounds the depth,
since they are distinct nodes of the graph. -/
def supply (c : Catalog) (g : Graph) :
    Nat → List Uid → List Uid → Link → Step Supply
  | 0, _, _, link => throw (.absentNode link.node)
  | depth + 1, visiting, evaluated, link => do
    let (n, d) ← placed c g link.node
    match d.kind with
    | .nullConstant => return ⟨[], ← constant objectType .null, evaluated⟩
    | .thisConstant => return ⟨[], ← constant (d.type.getD objectType) .this, evaluated⟩
    | .getVariable => return ⟨[], ← variableSlot (n.target?.getD ""), evaluated⟩
    | .constant => return ⟨[], ← constantOf n d, evaluated⟩
    | _ =>
      if d.flow || evaluated.contains link.node then
        return ⟨[], ← output link.node link.output, evaluated⟩
      else if visiting.contains link.node then
        report link.node .valueCycle
        return ⟨[], ← constant objectType .null, evaluated⟩
      else
        let feed := supply c g depth (link.node :: visiting)
        let supplies ← inputs feed n d (List.range d.inputs.length) evaluated
        let code ← callOf { n with uid := link.node } d supplies
        return ⟨code, ← output link.node link.output, link.node :: supplies.evaluated⟩

/-- Makes outputs available to a flow node. -/
def feedOf (c : Catalog) (g : Graph) : List Uid → Link → Step Supply :=
  supply c g (g.nodes.length + 1) []

/-- Follows a flow output; if it leads nowhere, the chain goes on at its continuation. -/
def port (follow : Uid → Target → Step (List Op)) (n : Node) (index : Nat) (exit : Target) :
    Step (List Op) :=
  match n.flows[index]?.join with
  | some next => follow next exit
  | none => return [.jump exit]

/-- The chains of a block in order, each going on with the next one. -/
def chains (follow : Uid → Target → Step (List Op)) (exit : Target) : List Uid → Step (List Op)
  | [] => return [.jump exit]
  | [last] => follow last exit
  | uid :: next :: rest => do
    let after ← newLabel
    let code ← follow uid (.label after)
    return code ++ .label after :: (← chains follow exit (next :: rest))

/-- Two chains of which a condition chooses one. -/
def choice (follow : Uid → Target → Step (List Op)) (n : Node) (condition : Slot)
    (exit : Target) : Step (List Op) := do
  let otherwise ← newLabel
  let first ← port follow n 0 exit
  let second ← port follow n 1 exit
  return .jumpUnless condition (.label otherwise) :: first ++ .label otherwise :: second

def branch (feed : List Uid → Link → Step Supply) (follow : Uid → Target → Step (List Op))
    (n : Node) (d : Definition) (exit : Target) : Step (List Op) := do
  let condition ← input feed n d 0 []
  return condition.code ++ (← choice follow n condition.slot exit)

def validity (feed : List Uid → Link → Step Supply) (follow : Uid → Target → Step (List Op))
    (n : Node) (d : Definition) (exit : Target) : Step (List Op) := do
  let object ← input feed n d 0 []
  let valid ← scratch boolType
  return object.code ++ .call isValidMethod [object.slot, valid] ::
    (← choice follow n valid exit)

def whileLoop (feed : List Uid → Link → Step Supply) (follow : Uid → Target → Step (List Op))
    (n : Node) (d : Definition) (exit : Target) : Step (List Op) := do
  let header ← newLabel
  let done ← newLabel
  let condition ← input feed n d 0 []
  let body ← port follow n 0 (.label header)
  let after ← port follow n 1 exit
  return .label header :: condition.code ++ .jumpUnless condition.slot (.label done) ::
    body ++ .label done :: after

/-- A loop that counts an index up to an end. -/
def counting (follow : Uid → Target → Step (List Op)) (n : Node) (index stop step inRange : Slot)
    (opening : List Op) (exit : Target) : Step (List Op) := do
  let header ← newLabel
  let increment ← newLabel
  let done ← newLabel
  let body ← port follow n 0 (.label increment)
  let after ← port follow n 1 exit
  return .label header :: .call lessThanMethod [index, stop, inRange] ::
    .jumpUnless inRange (.label done) :: opening ++ body ++ .label increment ::
    .call additionMethod [index, step, index] :: .jump (.label header) :: .label done :: after

def forLoop (feed : List Uid → Link → Step Supply) (follow : Uid → Target → Step (List Op))
    (n : Node) (d : Definition) (exit : Target) : Step (List Op) := do
  let start ← input feed n d 0 []
  let stop ← input feed n d 1 start.evaluated
  let step ← input feed n d 2 stop.evaluated
  let index ← output n.uid 0
  let inRange ← scratch boolType
  return start.code ++ stop.code ++ step.code ++ .copy start.slot index ::
    (← counting follow n index stop.slot step.slot inRange [] exit)

def foreachLoop (feed : List Uid → Link → Step Supply) (follow : Uid → Target → Step (List Op))
    (n : Node) (d : Definition) (exit : Target) : Step (List Op) := do
  let array ← input feed n d 0 []
  let item ← output n.uid 0
  let first ← constant int32Type (.int32 0)
  let one ← constant int32Type (.int32 1)
  let index ← scratch int32Type
  let length ← scratch int32Type
  let inRange ← scratch boolType
  return array.code ++ .copy first index :: .call arrayLengthMethod [array.slot, length] ::
    (← counting follow n index length one inRange
      [.call arrayGetMethod [array.slot, index, item]] exit)

/-- The variables whose changes are watched by an event. -/
def watched (g : Graph) : List Uid :=
  (g.nodes.filter fun n => n.kind = .changeEvent).filterMap Node.target?

/-- Sends the event that watches a variable. -/
def sendChange (variableNode : Node) : Step (List Op) := do
  let this ← constant behaviourType .this
  let event ← constant textType (.text (changeEntryName (variableNode.variableName?.getD "")))
  return [.call sendEventMethod [this, event]]

/-- Copies an input into the variable that a node is bound to. -/
def assignment (g : Graph) (feed : List Uid → Link → Step Supply)
    (follow : Uid → Target → Step (List Op)) (n : Node) (d : Definition) (exit : Target) :
    Step (List Op) := do
  let target ← present n.uid n.target?
  let variableNode ← present target (g.find? target)
  let slot ← variableSlot target
  let value ← inputAs feed n d 1 variableNode.variableType? []
  let sends := (n.values[2]?.bind Value.bool?).getD false
  let change ← if d.kind = .setVariable && sends && (watched g).contains target then
    sendChange variableNode else pure []
  return value.code ++ .copy value.slot slot :: change ++ (← port follow n 0 exit)

def call (feed : List Uid → Link → Step Supply) (follow : Uid → Target → Step (List Op))
    (n : Node) (d : Definition) (exit : Target) : Step (List Op) := do
  let supplies ← inputs feed n d (List.range d.inputs.length) []
  let code ← callOf n d supplies
  return code ++ (← port follow n 0 exit)

/-- The code of a flow node, given how to make outputs available and how to follow flows. -/
def body (g : Graph) (feed : List Uid → Link → Step Supply)
    (follow : Uid → Target → Step (List Op)) (n : Node) (d : Definition) (exit : Target) :
    Step (List Op) :=
  match d.kind with
  | .block => chains follow exit n.targets
  | .branch => branch feed follow n d exit
  | .isValid => validity feed follow n d exit
  | .forLoop => forLoop feed follow n d exit
  | .foreachLoop => foreachLoop feed follow n d exit
  | .whileLoop => whileLoop feed follow n d exit
  | .setVariable | .setReturnValue => assignment g feed follow n d exit
  | _ => call feed follow n d exit

/-- The code of the chain that starts at a node. Code that exists already for the node and the
continuation is jumped to. The depth is bounded by the length of the flow paths of the graph. -/
def chain (c : Catalog) (g : Graph) : Nat → Uid → Target → Step (List Op)
  | 0, uid, _ => throw (.absentNode uid)
  | depth + 1, uid, exit => fun s =>
    match s.emitted.lookup (uid, exit) with
    | some label => .ok ([.jump (.label label)], s)
    | none =>
      let entry := s.nextLabel
      let started := { s with
        nextLabel := entry + 1
        emitted := ((uid, exit), entry) :: s.emitted }
      let code : Step (List Op) := do
        let (n, d) ← placed c g uid
        let code ← body g (feedOf c g) (chain c g depth) n d exit
        return .label entry :: code
      code started

/-! ## Events -/

def entryName? (g : Graph) (n : Node) : Step (Option String) := do
  match n.kind with
  | .customEvent =>
    match (n.values[0]?.bind Value.text?).getD "" with
    | "" =>
      report n.uid .unnamedEvent
      return none
    | name => return some name
  | .changeEvent => return (g.targetName? n).map changeEntryName
  | _ => return some (eventEntryName n.fullName)

def parameterName (entry : String) (p : Parameter) : String :=
  String.ofList (entry.toList.dropWhile (· = '_') ++ Text.capitalized p.name.toList)

def nameParameters (uid : Uid) (entry : String) : Nat → List Parameter → Step Unit
  | _, [] => return ()
  | index, p :: rest => do
    let _ ← onHeapOrFail fun h => h.namedOutputSlot uid index (parameterName entry p)
    nameParameters uid entry (index + 1) rest

/-- The entry points of events with their nodes; of several with one name the first counts. -/
def entries (c : Catalog) (g : Graph) :
    List String → List Node → Step (List (String × Node))
  | _, [] => return []
  | taken, n :: rest => do
    match c.find? n.fullName with
    | none => entries c g taken rest
    | some d =>
      match ← entryName? g n with
      | none => entries c g taken rest
      | some name =>
        if taken.contains name then
          report n.uid (.duplicateEntry name)
          entries c g taken rest
        else
          nameParameters n.uid name 0 d.outputs
          return (name, n) :: (← entries c g (name :: taken) rest)

def stream (c : Catalog) (g : Graph) (name : String) (n : Node) : Step Stream := do
  modify fun s => { s with emitted := [] }
  return ⟨name, ← port (chain c g (g.nodes.length + 1)) n 0 .halt⟩

/-- The code of all events of a repaired graph. -/
def streams (c : Catalog) (g : Graph) : Step (List Stream) := do
  (← entries c g [] g.eventNodes).mapM fun entry => stream c g entry.1 entry.2

end Lowering

end ScriptGraph
