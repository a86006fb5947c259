import ScriptGraph.Node.Variable

/-!
Programs: named entry points into a flat list of instructions, over a heap whose slots start with
given values. Slots and addresses are positions in their lists. Programs keep them in 32 bits; here they
are numbers without bound, so that lists of 2 ^ 32 entries and more are out of scope.
-/

set_option autoImplicit false
set_option relaxedAutoImplicit false

namespace ScriptGraph

abbrev Slot := Nat
abbrev Address := Nat

/-- The jump target that ends the running event. -/
def haltAddress : Address := 0xFFFFFFFC

inductive Instruction where
  | copy (source destination : Slot)
  /-- Calls a method with the contents of slots, inputs first, and stores them all back. -/
  | call (method : String) (slots : List Slot)
  | jump (target : Address)
  | jumpUnless (condition : Slot) (target : Address)
deriving DecidableEq

structure EntryPoint where
  name : String
  address : Address
deriving DecidableEq

/-- A heap slot with the value it starts with. -/
structure Symbol where
  name : String
  type : String
  default : Value
  /-- Whether other programs may see it. -/
  exported : Bool
  sync : Option SyncMode
deriving DecidableEq

structure Program where
  name : String
  updateOrder : Int32
  entryPoints : List EntryPoint
  instructions : List Instruction
  symbols : List Symbol
deriving DecidableEq

namespace Program

def entryPoint? (p : Program) (name : String) : Option Address :=
  (p.entryPoints.find? fun entry => entry.name == name).map EntryPoint.address

def slotOf? (p : Program) (name : String) : Option Slot :=
  p.symbols.findIdx? fun symbol => symbol.name == name

def exportedSymbols (p : Program) : List Symbol := p.symbols.filter Symbol.exported

/-- The least entry address above an address, or the end of the code. -/
def nextEntry (p : Program) (start : Address) : Address :=
  (((p.entryPoints.map EntryPoint.address).filter (start < ·)).min?).getD p.instructions.length

/-- The instructions from an entry point to the next one; none if they leave the code. -/
def entryInstructions? (p : Program) (name : String) : Option (List Instruction) :=
  match p.entryPoint? name with
  | some start =>
    let stop := p.nextEntry start
    if start ≤ stop ∧ stop ≤ p.instructions.length then
      some ((p.instructions.take stop).drop start)
    else none
  | none => none

end Program

end ScriptGraph
