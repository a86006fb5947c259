import ScriptGraph.Compilation
import ScriptGraph.Machine
import ScriptGraph.Proofs.Graph.Lookup
import ScriptGraph.Proofs.Lowering.Streams
import Mathlib.Logic.Relation

/-!
What a snapshot means, told without code: events run by following flows node by node. Variables and
outputs are cells; a node evaluates the inputs it reads, acts, and leads on.
-/

set_option autoImplicit false
set_option relaxedAutoImplicit false

namespace ScriptGraph

namespace Reference

/-- A chain that is run for a node, which goes on when the chain has ended: a part of a block, or the
body of a loop. -/
structure Frame where
  node : Uid
  part : Nat
deriving DecidableEq

/-- A node met in an event, within the chains that are being run there, the innermost first. -/
structure Site where
  event : String
  frames : List Frame
  node : Uid
deriving DecidableEq

inductive Cell where
  | variable (uid : Uid)
  | output (uid : Uid) (index : Nat)
deriving DecidableEq

/-- Where a value is read from; cells may be written to. -/
inductive Place where
  | literal (value : Value)
  | cell (cell : Cell)
deriving DecidableEq

structure World (σ : Type) where
  cells : Cell → Value
  host : σ
  /-- The number of methods called so far. -/
  externs : Nat

namespace World

variable {σ : Type}

def get (w : World σ) : Place → Value
  | .literal value => value
  | .cell cell => w.cells cell

def set (w : World σ) (place : Place) (value : Value) : World σ :=
  match place with
  | .literal _ => w
  | .cell cell => { w with cells := fun other => if other = cell then value else w.cells other }

def setAll (w : World σ) : List Place → List Value → World σ
  | place :: places, value :: values => (w.set place value).setAll places values
  | _, _ => w

end World

/-- What a run comes to: its end, well or with an error, unless some loop takes more rounds than it is
granted. It is noted if a Foreach loop was begun that was still being run. -/
structure Outcome (σ α : Type) where
  reentered : Bool
  ended : Option (Except RunError α × World σ)

/-- A run, given the Foreach loops that are being run, by its event or by those that it interrupts.
What a run does never depends on them; they are there to be noted. -/
def Run (σ α : Type) := List Site → World σ → Outcome σ α

namespace Run

variable {σ α : Type}

def act (change : World σ → Except RunError α × World σ) : Run σ α :=
  fun _ w => ⟨false, some (change w)⟩

instance : Monad (Run σ) where
  pure x := act fun w => (.ok x, w)
  bind run next := fun running w =>
    let outcome := run running w
    match outcome.ended with
    | none => ⟨outcome.reentered, none⟩
    | some (.error error, v) => ⟨outcome.reentered, some (.error error, v)⟩
    | some (.ok x, v) =>
      let rest := next x running v
      ⟨outcome.reentered || rest.reentered, rest.ended⟩

end Run

section Actions

variable {σ : Type}

/-- A run that does not end in the rounds that are granted. -/
def exhausted {α : Type} : Run σ α := fun _ _ => ⟨false, none⟩

def failed {α : Type} (error : RunError) : Run σ α := .act fun w => (.error error, w)

def copy (source destination : Place) : Run σ Unit :=
  .act fun w => (.ok (), w.set destination (w.get source))

/-- Decides by a value. -/
def test (condition : Place) : Run σ Bool := .act fun w =>
  match w.get condition with
  | .bool holds => (.ok holds, w)
  | found => (.error (.nonBooleanCondition found), w)

def fetch (places : List Place) : Run σ (List Value) := .act fun w => (.ok (places.map w.get), w)

def store (places : List Place) (values : List Value) : Run σ Unit :=
  .act fun w => (.ok (), w.setAll places values)

variable (host : Host σ) (send : String → Run σ Unit) (method : String)

/-- Calls a method, which gives its arguments back as they are afterwards: a blocked target is refused,
an event sent to the program itself runs at once and gives nothing back, and everything else is left to
the host. -/
def execute (arguments : List Value) : Run σ (List Value) := fun running w =>
  let w := { w with externs := w.externs + 1 }
  match Activity.blocked? host w.host arguments, Activity.ownEvent? method arguments with
  | some target, _ => failed (.blacklisted method target) running w
  | none, some event => (send event >>= fun _ => pure []) running w
  | none, none =>
    let result := host.call w.host method arguments
    ⟨false, some (result.1, { w with host := result.2 })⟩

/-- Calls a method on inputs and outputs and stores its results in the outputs. -/
def invoke (inputs outputs : List Place) : Run σ Unit := do
  let arguments ← fetch (inputs ++ outputs)
  let results ← execute host send method arguments
  store outputs (results.drop inputs.length)

/-- Calls a method on inputs for a value that goes to no cell. The argument for it starts with the
default of its type. -/
def ask (type : String) (inputs : List Place) : Run σ Value := do
  let given ← fetch inputs
  let blank := Value.defaultFor (some type)
  let results ← execute host send method (given ++ [blank])
  return results[inputs.length]?.getD blank

/-- Decides by what a method says of inputs. -/
def judge (inputs : List Place) : Run σ Bool := do
  let answer ← ask host send method boolType inputs
  test (.literal answer)

/-- Repeats a round until one of them says that it was the last. -/
def iterate (round : Run σ Bool) : Nat → Run σ Unit
  | 0 => exhausted
  | rounds + 1 => do
    if ← round then iterate round rounds

/-- Runs a Foreach loop. -/
def within (site : Site) (run : Run σ Unit) : Run σ Unit := fun running w =>
  let outcome := run (site :: running) w
  { outcome with reentered := running.contains site || outcome.reentered }

end Actions

/-! ## Inputs -/

section Inputs

variable {σ : Type}

/-- A way to make outputs available, given the nodes that were evaluated for the acting node. -/
abbrev Feed (σ : Type) := List Uid → Link → Run σ (Place × List Uid)

def input (feed : Feed σ) (n : Node) (d : Definition) (index : Nat) (evaluated : List Uid) :
    Run σ (Place × List Uid) :=
  match n.links[index]?.join with
  | some link => feed evaluated link
  | none => pure (.literal (Lowering.literal n d index), evaluated)

def inputs (feed : Feed σ) (n : Node) (d : Definition) :
    List Nat → List Uid → Run σ (List Place × List Uid)
  | [], evaluated => pure ([], evaluated)
  | index :: rest, evaluated => do
    let first ← input feed n d index evaluated
    let others ← inputs feed n d rest first.2
    return (first.1 :: others.1, others.2)

def outputs (uid : Uid) (d : Definition) : List Place :=
  (List.range d.outputs.length).map fun index => .cell (.output uid index)

variable (c : Catalog) (g : Graph) (host : Host σ) (send : String → Run σ Unit)

def placed? (uid : Uid) : Option (Node × Definition) :=
  (g.find? uid).bind fun n => (c.find? n.fullName).map fun d => (n, d)

/-- Makes an output available. A node outside of the flow is called for it once, after its inputs;
the depth outlasts every path of links that is no cycle. -/
def evaluate : Nat → Feed σ
  | 0, evaluated, _ => pure (.literal .null, evaluated)
  | depth + 1, evaluated, link =>
    match placed? c g link.node with
    | none => pure (.literal .null, evaluated)
    | some (n, d) =>
      match Lowering.sourceOf n d with
      | .literal _ value => pure (.literal value, evaluated)
      | .variable uid => pure (.cell (.variable uid), evaluated)
      | .stored => pure (.cell (.output link.node link.output), evaluated)
      | .computed =>
        if evaluated.contains link.node then
          pure (.cell (.output link.node link.output), evaluated)
        else do
          let given ← inputs (evaluate depth) n d (List.range d.inputs.length) evaluated
          invoke host send d.fullName given.1 (outputs link.node d)
          return (.cell (.output link.node link.output), link.node :: given.2)

end Inputs

/-! ## Flows -/

section Flows

variable {σ : Type}

/-- A way to follow flows to a node within the chains that are being run. -/
abbrev Follow (σ : Type) := List Frame → Uid → Run σ Unit

/-- Follows a flow output, if it leads anywhere. -/
def port (follow : Uid → Run σ Unit) (n : Node) (index : Nat) : Run σ Unit :=
  match n.flows[index]?.join with
  | some next => follow next
  | none => pure ()

/-- Runs the chains of a block in order; the last one ends the block. -/
def parts (follow : Follow σ) (frames : List Frame) (block : Uid) : Nat → List Uid → Run σ Unit
  | _, [] => pure ()
  | _, [last] => follow frames last
  | part, uid :: next :: rest => do
    follow (⟨block, part⟩ :: frames) uid
    parts follow frames block (part + 1) (next :: rest)

def choice (follow : Uid → Run σ Unit) (n : Node) (condition : Run σ Bool) : Run σ Unit := do
  if ← condition then port follow n 0 else port follow n 1

variable (g : Graph) (host : Host σ) (send : String → Run σ Unit) (feed : Feed σ)
  (follow : Follow σ) (rounds : Nat) (event : String) (frames : List Frame) (n : Node)
  (d : Definition)

def branch : Run σ Unit := do
  let condition ← input feed n d 0 []
  choice (follow frames) n (test condition.1)

def validity : Run σ Unit := do
  let object ← input feed n d 0 []
  choice (follow frames) n (judge host send isValidMethod [object.1])

def whileLoop : Run σ Unit := do
  iterate (do
    let condition ← input feed n d 0 []
    let holds ← test condition.1
    if holds then port (follow (⟨n.uid, 0⟩ :: frames)) n 0
    return holds) rounds
  port (follow frames) n 1

/-- The index of a For loop is its output. -/
def forLoop : Run σ Unit := do
  let start ← input feed n d 0 []
  let stop ← input feed n d 1 start.2
  let step ← input feed n d 2 stop.2
  let index := Place.cell (.output n.uid 0)
  copy start.1 index
  iterate (do
    let holds ← judge host send lessThanMethod [index, stop.1]
    if holds then
      port (follow (⟨n.uid, 0⟩ :: frames)) n 0
      invoke host send additionMethod [index, step.1] [index]
    return holds) rounds
  port (follow frames) n 1

/-- Visits the items of an array from a position on. -/
def visits (array : Place) (length : Value) : Nat → Value → Run σ Unit
  | 0, _ => exhausted
  | rounds + 1, position => do
    if ← judge host send lessThanMethod [.literal position, .literal length] then
      invoke host send arrayGetMethod [array, .literal position] [.cell (.output n.uid 0)]
      port (follow (⟨n.uid, 0⟩ :: frames)) n 0
      let next ← ask host send additionMethod int32Type [.literal position, .literal (.int32 1)]
      visits array length rounds next

/-- The length of the array is asked for once; the array itself is read in every round. -/
def foreachLoop : Run σ Unit := do
  let array ← input feed n d 0 []
  within ⟨event, frames, n.uid⟩ do
    let length ← ask host send arrayLengthMethod int32Type [array.1]
    visits host send follow frames n array.1 length rounds (.int32 0)
  port (follow frames) n 1

/-- Tells the event that watches a variable, if there is one and the node asks for it. -/
def notice (target : Uid) : Run σ Unit :=
  if d.kind = .setVariable && (n.values[2]?.bind Value.bool?).getD false &&
      (Lowering.watched g).contains target then
    invoke host send sendEventMethod [.literal .this, .literal (.text
      (changeEntryName (((g.find? target).bind Node.variableName?).getD "")))] []
  else pure ()

def assignment : Run σ Unit := do
  match n.target? with
  | none => pure ()
  | some target =>
    let value ← input feed n d 1 []
    copy value.1 (.cell (.variable target))
    notice g host send n d target
    port (follow frames) n 0

def call : Run σ Unit := do
  let given ← inputs feed n d (List.range d.inputs.length) []
  invoke host send d.fullName given.1 (outputs n.uid d)
  port (follow frames) n 0

/-- What a node does when the flow comes to it. -/
def body : Run σ Unit :=
  match d.kind with
  | .block => parts follow frames n.uid 0 n.targets
  | .branch => branch feed follow frames n d
  | .isValid => validity host send feed follow frames n d
  | .forLoop => forLoop host send feed follow rounds frames n d
  | .foreachLoop => foreachLoop host send feed follow rounds event frames n d
  | .whileLoop => whileLoop feed follow rounds frames n d
  | .setVariable | .setReturnValue => assignment g host send feed follow frames n d
  | _ => call host send feed follow frames n d

end Flows

section Events

variable {σ : Type} (c : Catalog) (g : Graph) (host : Host σ) (rounds : Nat)

/-- Runs the chain that starts at a node. The height outlasts every path of flows. -/
def chain (send : String → Run σ Unit) (event : String) : Nat → Follow σ
  | 0, _, _ => pure ()
  | height + 1, frames, uid =>
    match placed? c g uid with
    | none => pure ()
    | some (n, d) =>
      body g host send (evaluate c g host send (g.nodes.length + 1)) (chain send event height)
        rounds event frames n d

/-- The event with an entry point of a name, which the first to claim it gets. -/
def eventOf? (name : String) : Option Node := Lowering.claimant? c g g.eventNodes name

/-- Runs the chain that an event starts. -/
def event (send : String → Run σ Unit) (name : String) (n : Node) : Run σ Unit :=
  port (chain c g host rounds send name (g.nodes.length + 1) []) n 0

/-- Runs an event that the program sends to itself, at most so many within each other. -/
def send : Nat → String → Run σ Unit
  | left, name =>
    match eventOf? c g name with
    | none => pure ()
    | some n =>
      match left with
      | 0 => failed (.eventDepthExceeded maxEventDepth)
      | left + 1 => event c g host rounds (send left) name n

/-- Runs the event with a name, while no other is running. -/
def run (name : String) (w : World σ) : Outcome σ Unit :=
  match eventOf? c g name with
  | none => ⟨false, some (.error (.unknownEntryPoint name), w)⟩
  | some n => event c g host rounds (send c g host rounds maxEventDepth) name n []
      { w with externs := 0 }

/-- What cells start with. -/
def initialCell : Cell → Value
  | .variable uid => ((g.find? uid).bind fun n => n.values[valueInput]?).getD .null
  | .output uid index =>
    ((placed? c g uid).bind fun entry => entry.2.outputs[index]?).elim .null fun p =>
      .defaultFor (some (p.type.getD objectType))

/-- The world before any event has run. -/
def World.initial (state : σ) : World σ := ⟨initialCell c g, state, 0⟩

end Events

end Reference

/-! ## Nodes that are evaluated for their readers -/

theorem Reference.placed?_eq_some {c : Catalog} {g : Graph} {uid : Uid} {n : Node}
    {d : Definition} :
    placed? c g uid = some (n, d) ↔ g.find? uid = some n ∧ c.find? n.fullName = some d := by
  unfold placed?
  cases g.find? uid with
  | none => simp
  | some m =>
    simp only [Option.bind_some, Option.map_eq_some_iff, Prod.mk.injEq, Option.some.injEq]
    constructor
    · rintro ⟨e, he, rfl, rfl⟩
      exact ⟨rfl, he⟩
    · rintro ⟨rfl, hd⟩
      exact ⟨d, hd, rfl, rfl⟩

/-- Whether a node is evaluated for its readers. -/
def Graph.Computed (c : Catalog) (g : Graph) (uid : Uid) : Prop :=
  ∃ n d, Reference.placed? c g uid = some (n, d) ∧ Lowering.sourceOf n d = .computed

/-- One node that is evaluated for its readers reads another one. -/
def Graph.Reads (c : Catalog) (g : Graph) (reader source : Uid) : Prop :=
  g.Computed c reader ∧ g.Computed c source ∧
    ∃ n link, g.find? reader = some n ∧ some link ∈ n.links ∧ link.node = source

/-- No node that is evaluated for its readers waits for itself. -/
def Graph.Founded (c : Catalog) (g : Graph) : Prop :=
  ∀ uid, ¬Relation.TransGen (g.Reads c) uid uid

theorem Graph.founded_of_rank (c : Catalog) {g : Graph} (rank : Uid → Nat)
    (falls : ∀ n ∈ g.nodes, ∀ link, some link ∈ n.links → rank link.node < rank n.uid) :
    g.Founded c := by
  have single : ∀ reader source, g.Reads c reader source → rank source < rank reader := by
    rintro reader source ⟨-, -, n, link, found, listed, rfl⟩
    rw [← Graph.find?_uid found]
    exact falls n (Graph.find?_mem found) link listed
  have whole : ∀ reader source, Relation.TransGen (g.Reads c) reader source →
      rank source < rank reader := by
    intro reader source reads
    induction reads with
    | single reads => exact single _ _ reads
    | tail _ reads ih => exact Nat.lt_trans (single _ _ reads) ih
  exact fun uid cycle => Nat.lt_irrefl _ (whole uid uid cycle)

end ScriptGraph
