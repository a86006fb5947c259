import ScriptGraph.Code
import ScriptGraph.CompileError

/-!
Assembly: the streams are laid out back to back and every jump target becomes an address.
-/

set_option autoImplicit false
set_option relaxedAutoImplicit false

namespace ScriptGraph.Assembly

/-- The labels of operations that start at an address, with the addresses they mark. -/
def placements : Address → List Op → List (Label × Address)
  | _, [] => []
  | address, .label label :: rest => (label, address) :: placements address rest
  | address, _ :: rest => placements (address + 1) rest

def entries : Address → List Stream → List EntryPoint
  | _, [] => []
  | address, stream :: rest =>
    ⟨stream.name, address⟩ :: entries (address + codeLength stream.ops) rest

/-- The address of a target; of several places of one label the last counts. -/
def resolve (labels : List (Label × Address)) : Target → Except CompileError Address
  | .halt => .ok haltAddress
  | .label label =>
    match labels.reverse.lookup label with
    | some address => .ok address
    | none => .error (.unresolvedLabel label)

def encode (labels : List (Label × Address)) : List Op → Except CompileError (List Instruction)
  | [] => .ok []
  | op :: rest =>
    match op with
    | .label _ => encode labels rest
    | .copy source destination => (encode labels rest).map (.copy source destination :: ·)
    | .call method slots => (encode labels rest).map (.call method slots :: ·)
    | .jump target =>
      match resolve labels target with
      | .ok address => (encode labels rest).map (.jump address :: ·)
      | .error error => .error error
    | .jumpUnless condition target =>
      match resolve labels target with
      | .ok address => (encode labels rest).map (.jumpUnless condition address :: ·)
      | .error error => .error error

def allOps (streams : List Stream) : List Op := streams.flatMap Stream.ops

def assemble (name : String) (updateOrder : Int32) (streams : List Stream)
    (symbols : List Symbol) : Except CompileError Program :=
  match encode (placements 0 (allOps streams)) (allOps streams) with
  | .ok instructions => .ok ⟨name, updateOrder, entries 0 streams, instructions, symbols⟩
  | .error error => .error error

end ScriptGraph.Assembly
