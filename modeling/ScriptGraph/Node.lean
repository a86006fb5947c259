import ScriptGraph.Definition

/-!
Placed nodes. A node names the nodes it is connected to by uid only, so a connection may lead
nowhere; the functions here bring a node's ports in line with its definition. New nodes draw their uids
from a supply.
-/

set_option autoImplicit false
set_option relaxedAutoImplicit false

namespace ScriptGraph

/-- The identity of a node within its graph. -/
abbrev Uid := String

/-- A numbered source of identities, of which the first `drawn` ones are used up. -/
structure Supply where
  identity : Nat → Uid
  drawn : Nat

namespace Supply

def draw (s : Supply) : Uid × Supply :=
  (s.identity s.drawn, { s with drawn := s.drawn + 1 })

end Supply

/-- Where a node is shown; compiling does not look at it. -/
structure Position where
  x : Single
  y : Single
deriving DecidableEq, Inhabited

namespace Position

def origin : Position := ⟨.zero, .zero⟩

instance : Add Position := ⟨fun p q => ⟨p.x + q.x, p.y + q.y⟩⟩
instance : Sub Position := ⟨fun p q => ⟨p.x - q.x, p.y - q.y⟩⟩

end Position

/-- The output of a node that feeds an input. -/
structure Link where
  node : Uid
  output : Nat
deriving DecidableEq

structure Node where
  uid : Uid
  fullName : String
  position : Position
  /-- The literals of the inputs. -/
  values : List Value
  /-- What feeds each input, if anything does. -/
  links : List (Option Link)
  /-- Where each flow output leads, if anywhere. -/
  flows : List (Option Uid)
deriving DecidableEq

def fitted {α : Type} (length : Nat) (entries : List (Option α)) : List (Option α) :=
  entries.take length ++ List.replicate (length - entries.length) none

def presentCount {α : Type} (entries : List (Option α)) : Nat :=
  entries.countP Option.isSome

/-- Puts an entry in place of the first absent one, if there is one. -/
def fillFirst? {α : Type} (entry : α) : List (Option α) → Option (List (Option α))
  | [] => none
  | none :: rest => some (some entry :: rest)
  | some kept :: rest => (fillFirst? entry rest).map (some kept :: ·)

/-- Puts entries in place of the absent ones from left to right; gives those left over. -/
def fillAbsent {α : Type} : List (Option α) → List α → List (Option α) × List α
  | entries, [] => (entries, [])
  | entries, entry :: rest =>
    match fillFirst? entry entries with
    | some filled => fillAbsent filled rest
    | none =>
      let result := fillAbsent entries rest
      (result.1, entry :: result.2)

namespace Node

def kind (n : Node) : Kind := .ofName n.fullName

def isEvent (n : Node) : Bool := n.kind.isEvent

/-- The number of flow outputs that a node has now: a block always keeps one free. -/
def flowPorts (d : Definition) (flows : List (Option Uid)) : Nat :=
  if d.kind = .block then max 2 (presentCount flows + 1) else d.flowArity

/-- The flow outputs laid out for a definition, and the targets for which no output is left.
A block moves its targets together; other nodes move targets of outputs they do not have into
their free outputs. -/
def laidOut (d : Definition) (flows : List (Option Uid)) : List (Option Uid) × List Uid :=
  if d.kind = .block then
    (fitted (flowPorts d flows) (flows.filter Option.isSome), [])
  else
    let ports := d.flowArity
    let placed := fillAbsent (flows.take ports) ((flows.drop ports).filterMap id)
    (fitted ports placed.1, placed.2)

def layFlows (n : Node) (d : Definition) : Node :=
  { n with flows := (laidOut d n.flows).1 }

/-- The node with one link entry and at least one literal for each input, its flows laid out. -/
def conform (n : Node) (d : Definition) : Node :=
  { n with
    values := n.values ++ d.initialValues.drop n.values.length
    links := fitted d.inputs.length n.links
    flows := (laidOut d n.flows).1 }

/-- A new node with the literals of its definition and no connections. -/
def fresh (uid : Uid) (d : Definition) : Node :=
  conform ⟨uid, d.fullName, .origin, [], [], []⟩ d

/-- The inputs from `index` on whose literals do not fit their type. -/
def misfits (d : Definition) (index : Nat) : List Value → List Nat
  | [] => []
  | value :: rest =>
    if value.fits (d.inputType index) then misfits d (index + 1) rest
    else index :: misfits d (index + 1) rest

/-- Literals from `index` on, those that do not fit replaced by the default of the type. -/
def settled (d : Definition) (index : Nat) : List Value → List Value
  | [] => []
  | value :: rest =>
    (if value.fits (d.inputType index) then value else .defaultFor (d.inputType index)) ::
      settled d (index + 1) rest

/-- The node with every literal fitting its type. -/
def settle (n : Node) (d : Definition) : Node :=
  { n with values := settled d 0 n.values }

def connectedFlows (n : Node) : List (Nat × Uid) :=
  n.flows.zipIdx.filterMap fun entry => entry.1.map fun target => (entry.2, target)

def targets (n : Node) : List Uid := n.flows.filterMap id

end Node

end ScriptGraph
