import ScriptGraph.Catalog
import ScriptGraph.CompileError
import ScriptGraph.Graph
import ScriptGraph.Program

/-!
The layout of a program's heap. Slots are handed out in the order in which they are asked for,
variables first; asking for the same output, variable or constant again gives the same slot.
-/

set_option autoImplicit false
set_option relaxedAutoImplicit false

namespace ScriptGraph

/-- The slots handed out so far, and to whom. -/
structure HeapLayout where
  symbols : Array Symbol
  /-- The types of the outputs of each node. -/
  outputTypes : List (Uid × List String)
  outputs : List ((Uid × Nat) × Slot)
  variableSlots : List (Uid × Slot)
  constants : List ((String × Value) × Slot)
  /-- How many names with a stem have been given out; the latest count comes first. -/
  counts : List (String × Nat)

namespace HeapLayout

def constantStem : String := "__const_"
def intermediateStem : String := "__intnl_"

def size (h : HeapLayout) : Nat := h.symbols.size

def names (h : HeapLayout) : List String := h.symbols.toList.map Symbol.name

/-- Adds a slot; gives its number. -/
def push (h : HeapLayout) (symbol : Symbol) : Slot × HeapLayout :=
  (h.size, { h with symbols := h.symbols.push symbol })

/-- The next name with a stem: a number follows it, counted from zero. -/
def nextName (h : HeapLayout) (stem : String) : String × HeapLayout :=
  let count := (h.counts.lookup stem).getD 0
  (stem ++ "_" ++ Text.decimal count, { h with counts := (stem, count + 1) :: h.counts })

def internal (name type : String) (default : Value) : Symbol :=
  ⟨name, type, default, false, none⟩

def variableSymbol (n : Node) : Symbol where
  name := n.variableName?.getD n.uid
  type := n.variableType?.getD objectType
  default := n.values[valueInput]?.getD .null
  exported := n.isPublic
  sync := if n.isSynced then some n.syncMode else none

def variableSlot (h : HeapLayout) (n : Node) : Slot × HeapLayout :=
  match h.variableSlots.lookup n.uid with
  | some slot => (slot, h)
  | none =>
    let (slot, h) := h.push (variableSymbol n)
    (slot, { h with variableSlots := (n.uid, slot) :: h.variableSlots })

def findVariable? (h : HeapLayout) (uid : Uid) : Option Slot := h.variableSlots.lookup uid

def outputType (h : HeapLayout) (uid : Uid) (output : Nat) : Except CompileError String :=
  match h.outputTypes.lookup uid with
  | none => .error (.absentNode uid)
  | some types =>
    match types[output]? with
    | some type => .ok type
    | none => .error (.absentOutput uid output types.length)

def addOutput (h : HeapLayout) (uid : Uid) (output : Nat) (name type : String) :
    Slot × HeapLayout :=
  let (slot, h) := h.push (internal name type (.defaultFor (some type)))
  (slot, { h with outputs := ((uid, output), slot) :: h.outputs })

def outputSlot (h : HeapLayout) (uid : Uid) (output : Nat) : Except CompileError (Slot × HeapLayout) :=
  match h.outputType uid output with
  | .error error => .error error
  | .ok type =>
    match h.outputs.lookup (uid, output) with
    | some slot => .ok (slot, h)
    | none =>
      let (name, h) := h.nextName (intermediateStem ++ type)
      .ok (h.addOutput uid output name type)

/-- The slot of an output; if it is new, its name is like the given one. -/
def namedOutputSlot (h : HeapLayout) (uid : Uid) (output : Nat) (name : String) :
    Except CompileError (Slot × HeapLayout) :=
  match h.outputType uid output with
  | .error error => .error error
  | .ok type =>
    match h.outputs.lookup (uid, output) with
    | some slot => .ok (slot, h)
    | none => .ok (h.addOutput uid output (unusedNameLike h.names name) type)

/-- The slot of a constant of a type. -/
def constantSlot (h : HeapLayout) (type : String) (value : Value) : Slot × HeapLayout :=
  match h.constants.lookup (type, value) with
  | some slot => (slot, h)
  | none =>
    let (name, h) := h.nextName (constantStem ++ type)
    let (slot, h) := h.push (internal name type value)
    (slot, { h with constants := ((type, value), slot) :: h.constants })

/-- A new slot that belongs to no output. -/
def scratchSlot (h : HeapLayout) (type : String) : Slot × HeapLayout :=
  let (name, h) := h.nextName (intermediateStem ++ type)
  h.push (internal name type (.defaultFor (some type)))

/-- The types of the outputs of all nodes; of several nodes with one uid the last counts. -/
def outputTypesOf (c : Catalog) (g : Graph) : List (Uid × List String) :=
  (g.nodes.filterMap fun n => (c.find? n.fullName).map fun d =>
    (n.uid, d.outputs.map fun p => p.type.getD objectType)).reverse

def ofGraph (c : Catalog) (g : Graph) : HeapLayout :=
  g.variableNodes.foldl (fun h n => (h.variableSlot n).2) ⟨#[], outputTypesOf c g, [], [], [], []⟩

end HeapLayout

end ScriptGraph
