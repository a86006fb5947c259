import ScriptGraph.Program
import ScriptGraph.Catalog.Intrinsic

/-!
The machine that runs programs. Its host executes the methods that a program calls; events that
a program sends to itself run inside the running event. Every instruction counts as a step, and
no run takes more steps than its budget.
-/

set_option autoImplicit false
set_option relaxedAutoImplicit false

namespace ScriptGraph

/-- Why a run ends early. -/
inductive RunError where
  | unknownEntryPoint (name : String)
  | slotOutOfBounds (slot : Slot)
  | addressOutOfBounds (address : Address)
  | nonBooleanCondition (found : Value)
  | unknownMethod (method : String)
  | callFailed (method reason : String)
  | blacklisted (method : String) (target : Value)
  | stepBudgetExceeded (budget : Nat)
  | eventDepthExceeded (depth : Nat)
deriving DecidableEq

def RunError.message : RunError → String
  | .unknownEntryPoint name => "Program has no entry point named '" ++ name ++ "'"
  | .slotOutOfBounds slot => "Heap slot " ++ Text.decimal slot ++ " is out of bounds"
  | .addressOutOfBounds address =>
    "Jump to address " ++ Text.decimal address ++ " is outside the program"
  | .nonBooleanCondition found =>
    "Condition slot held " ++ found.display ++ " instead of a boolean"
  | .unknownMethod method => "Extern '" ++ method ++ "' is not provided by the host"
  | .callFailed method reason => "Extern '" ++ method ++ "' failed: " ++ reason
  | .blacklisted method target =>
    "Extern '" ++ method ++ "' targets a blacklisted object " ++ target.display
  | .stepBudgetExceeded budget =>
    "Execution exceeded the step budget of " ++ Text.decimal budget ++ " instructions"
  | .eventDepthExceeded depth =>
    "Nested events exceeded the depth limit of " ++ Text.decimal depth

/-- What a program calls into, with a state of its own. -/
structure Host (σ : Type) where
  /-- Executes a method on its arguments, inputs then outputs; gives the arguments afterwards. -/
  call : σ → String → List Value → Except RunError (List Value) × σ
  /-- Whether methods of an object must not be called. -/
  blocks : σ → Value → Bool

/-- How much a finished run did. -/
structure Report where
  steps : Nat
  externs : Nat
deriving DecidableEq, Repr

def defaultBudget : Nat := 1000000

def maxEventDepth : Nat := 64

/-- A program with the present contents of its heap. -/
structure Machine where
  program : Program
  heap : Array Value
  budget : Nat

/-- A running event: where it stands, and where the events it interrupts continue. -/
structure Activity (σ : Type) where
  heap : Array Value
  host : σ
  address : Address
  returns : List Address
  report : Report

namespace Activity

variable {σ : Type}

/-- Where a run goes on from an address: at the halt address the running event ends and the one
it interrupts continues; none if no event is left. -/
def resumed : Address → List Address → Option (Address × List Address)
  | address, [] => if address = haltAddress then none else some (address, [])
  | address, next :: rest =>
    if address = haltAddress then resumed next rest else some (address, next :: rest)

/-- The contents of slots in order, or the first slot there is not. -/
def readAll (heap : Array Value) : List Slot → Except RunError (List Value)
  | [] => .ok []
  | slot :: rest =>
    match heap[slot]? with
    | some value => (readAll heap rest).map (value :: ·)
    | none => .error (.slotOutOfBounds slot)

def storeAll : Array Value → List Slot → List Value → Array Value
  | heap, slot :: slots, value :: values => storeAll (heap.setIfInBounds slot value) slots values
  | heap, _, _ => heap

/-- The target of a call, if the host blocks it. -/
def blocked? (host : Host σ) (state : σ) : List Value → Option Value
  | .object id :: _ => if host.blocks state (.object id) then some (.object id) else none
  | _ => none

def ownEvent? (method : String) : List Value → Option String
  | .this :: arguments =>
    if method = sendEventMethod then some ((arguments.head?.bind Value.text?).getD "") else none
  | _ => none

/-- Calls a method on the contents of slots. -/
def call (program : Program) (host : Host σ) (a : Activity σ) (method : String)
    (slots : List Slot) : Except RunError Unit × Activity σ :=
  match readAll a.heap slots with
  | .error error => (.error error, a)
  | .ok arguments =>
    match blocked? host a.host arguments, ownEvent? method arguments with
    | some target, _ => (.error (.blacklisted method target), a)
    | none, some event =>
      match program.entryPoint? event with
      | none => (.ok (), a)
      | some start =>
        if maxEventDepth < a.returns.length + 1 then
          (.error (.eventDepthExceeded maxEventDepth), a)
        else (.ok (), { a with address := start, returns := a.address :: a.returns })
    | none, none =>
      match host.call a.host method arguments with
      | (.error error, state) => (.error error, { a with host := state })
      | (.ok results, state) =>
        (.ok (), { a with host := state, heap := storeAll a.heap slots results })

/-- Executes one instruction; the address is already that of the next one. -/
def perform (program : Program) (host : Host σ) (a : Activity σ) :
    Instruction → Except RunError Unit × Activity σ
  | .copy source destination =>
    match a.heap[source]? with
    | none => (.error (.slotOutOfBounds source), a)
    | some value =>
      if destination < a.heap.size then
        (.ok (), { a with heap := a.heap.setIfInBounds destination value })
      else (.error (.slotOutOfBounds destination), a)
  | .jump target => (.ok (), { a with address := target })
  | .jumpUnless condition target =>
    match a.heap[condition]? with
    | none => (.error (.slotOutOfBounds condition), a)
    | some (.bool true) => (.ok (), a)
    | some (.bool false) => (.ok (), { a with address := target })
    | some found => (.error (.nonBooleanCondition found), a)
  | .call method slots =>
    call program host { a with report := { a.report with externs := a.report.externs + 1 } }
      method slots

/-- Runs an activity to its end with a number of steps left of the budget. -/
def run (program : Program) (code : Array Instruction) (host : Host σ) (budget : Nat) :
    Nat → Activity σ → Except RunError Report × Activity σ
  | left, a =>
    match resumed a.address a.returns with
    | none => (.ok a.report, a)
    | some (address, returns) =>
      match code[address]? with
      | none => (.error (.addressOutOfBounds address), a)
      | some instruction =>
        match left with
        | 0 => (.error (.stepBudgetExceeded budget), a)
        | left + 1 =>
          let report := { a.report with steps := a.report.steps + 1 }
          match perform program host { a with address := address + 1, returns, report }
            instruction with
          | (.error error, a) => (.error error, a)
          | (.ok (), a) => run program code host budget left a

end Activity

namespace Machine

/-- A machine whose heap holds what the symbols of a program start with. -/
def load (program : Program) (budget : Nat) : Machine :=
  ⟨program, (program.symbols.map Symbol.default).toArray, budget⟩

def get? (m : Machine) (name : String) : Option Value :=
  (m.program.slotOf? name).bind fun slot => m.heap[slot]?

def set? (m : Machine) (name : String) (value : Value) : Option Machine :=
  (m.program.slotOf? name).map fun slot =>
    { m with heap := m.heap.setIfInBounds slot value }

/-- Runs the event with a name to its end. The heap keeps what a failing run has done. -/
def run {σ : Type} (m : Machine) (host : Host σ) (state : σ) (entry : String) :
    Except RunError Report × Machine × σ :=
  match m.program.entryPoint? entry with
  | none => (.error (.unknownEntryPoint entry), m, state)
  | some start =>
    let (result, a) := Activity.run m.program m.program.instructions.toArray host m.budget m.budget
      ⟨m.heap, state, start, [], ⟨0, 0⟩⟩
    (result, { m with heap := a.heap }, a.host)

end Machine

end ScriptGraph
