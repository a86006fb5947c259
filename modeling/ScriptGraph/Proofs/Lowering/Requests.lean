import ScriptGraph.Compilation
import ScriptGraph.Proofs.Graph.Lookup
import ScriptGraph.Proofs.Lowering.Streams
import Mathlib.Logic.Relation

/-!
What lowering asks of the layout. Every request for a constant comes from a literal that a node has,
from a node that stands for one, or from a loop or assignment that needs it for itself; every request
for a slot with a given name comes from a parameter of an event.
-/

set_option autoImplicit false
set_option relaxedAutoImplicit false

namespace ScriptGraph.Lowering

open HeapLayout (constantStem intermediateStem internal)
open Relation (ReflTransGen)

variable {α β : Type}

/-- A node of a graph with its definition. -/
structure Stands (c : Catalog) (g : Graph) (n : Node) (d : Definition) : Prop where
  listed : n ∈ g.nodes
  defined : c.find? n.fullName = some d

/-- The constants of a graph with the types they are asked for. -/
inductive Constant (c : Catalog) (g : Graph) : String → Value → Prop
  | input {n : Node} {d : Definition} (stands : Stands c g n d) (index : Nat) :
    Constant c g (literalType (d.inputType index) (literal n d index)) (literal n d index)
  /-- A literal that is assigned has the type of the variable. -/
  | assigned {n v : Node} {d : Definition} {target : Uid} (stands : Stands c g n d)
    (assigns : d.kind = .setVariable ∨ d.kind = .setReturnValue) (bound : n.target? = some target)
    (found : g.find? target = some v) :
    Constant c g (literalType v.variableType? (literal n d 1)) (literal n d 1)
  | node {n : Node} {d : Definition} (stands : Stands c g n d) (kind : d.kind = .constant) :
    Constant c g ((d.type.or (d.outputType 0)).getD objectType) (n.values[0]?.getD .null)
  | self {n : Node} {d : Definition} (stands : Stands c g n d) (kind : d.kind = .thisConstant) :
    Constant c g (d.type.getD objectType) .this
  | null : Constant c g objectType .null
  | count (number : Int32) : Constant c g int32Type (.int32 number)
  | receiver : Constant c g behaviourType .this
  | event (name : String) : Constant c g textType (.text name)

/-- One request and the layout after it. -/
inductive Request (c : Catalog) (g : Graph) : HeapLayout → HeapLayout → Prop
  | constant {type : String} {value : Value} (stated : Constant c g type value) (h : HeapLayout) :
    Request c g h (h.constantSlot type value).2
  | scratch (type : String) (h : HeapLayout) : Request c g h (h.scratchSlot type).2
  | output {uid : Uid} {index : Nat} {slot : Slot} {h later : HeapLayout}
    (given : h.outputSlot uid index = .ok (slot, later)) : Request c g h later
  | parameter {n : Node} {d : Definition} {entry : String} {p : Parameter} {index : Nat} {slot : Slot}
    {h later : HeapLayout} (event : n ∈ g.eventNodes) (defined : c.find? n.fullName = some d)
    (claims : claimedName? g n = some entry) (listed : p ∈ d.outputs)
    (given : h.namedOutputSlot n.uid index (parameterName entry p) = .ok (slot, later)) :
    Request c g h later

/-- The symbols whose names are counted, with the stems of their names. -/
inductive Counted (c : Catalog) (g : Graph) : String → String → Value → Prop
  | constant {type : String} {value : Value} (stated : Constant c g type value) :
    Counted c g (constantStem ++ type) type value
  | intermediate (type : String) :
    Counted c g (intermediateStem ++ type) type (.defaultFor (some type))

/-- What a request does to the symbols of a layout and to its counts of names. -/
inductive Enlarges (c : Catalog) (g : Graph) (h later : HeapLayout) : Prop
  | same (unchanged : later = h)
  | counted {stem type : String} {value : Value} (counted : Counted c g stem type value)
    (symbols : later.symbols = h.symbols.push (internal (h.nextName stem).1 type value))
    (counts : later.counts = (h.nextName stem).2.counts)
  | parameter {n : Node} {d : Definition} {entry type : String} {p : Parameter}
    (event : n ∈ g.eventNodes) (defined : c.find? n.fullName = some d)
    (claims : claimedName? g n = some entry) (listed : p ∈ d.outputs)
    (symbols : later.symbols = h.symbols.push (internal
      (unusedNameLike h.names (parameterName entry p)) type (.defaultFor (some type))))
    (counts : later.counts = h.counts)

theorem Request.enlarges {c : Catalog} {g : Graph} {h later : HeapLayout}
    (request : Request c g h later) : Enlarges c g h later := by
  cases request with
  | constant stated =>
    unfold HeapLayout.constantSlot
    split
    · exact .same rfl
    · exact .counted (.constant stated) rfl rfl
  | scratch type => exact .counted (.intermediate type) rfl rfl
  | output given =>
    unfold HeapLayout.outputSlot at given
    split at given
    · cases given
    · rename_i type _
      split at given
      · cases given
        exact .same rfl
      · cases given
        exact .counted (.intermediate type) rfl rfl
  | parameter event defined claims listed given =>
    unfold HeapLayout.namedOutputSlot at given
    split at given
    · cases given
    · split at given
      · cases given
        exact .same rfl
      · cases given
        exact .parameter event defined claims listed rfl rfl

def Asks (c : Catalog) (g : Graph) (x : Step α) : Prop :=
  Keeps (fun s t => ReflTransGen (Request c g) s.heap t.heap) x

namespace Asks

variable {c : Catalog} {g : Graph}

theorem pure (a : α) : Asks c g (Pure.pure a : Step α) :=
  Keeps.pure (fun _ => .refl) a

theorem bind {x : Step α} {f : α → Step β} (first : Asks c g x) (second : ∀ a, Asks c g (f a)) :
    Asks c g (x >>= f) :=
  Keeps.bind (fun _ _ _ => .trans) first second

theorem mapM {f : α → Step β} {as : List α} (each : ∀ a ∈ as, Asks c g (f a)) :
    Asks c g (as.mapM f) := by
  induction as with
  | nil => exact pure []
  | cons a as ih =>
    rw [List.forall_mem_cons] at each
    rw [List.mapM_cons]
    exact each.1.bind fun b => (ih each.2).bind fun bs => pure (b :: bs)

theorem throw (error : CompileError) : Asks c g (MonadExcept.throw error : Step α) := by
  intro s a t given
  rw [throw_apply] at given
  cases given

theorem newLabel : Asks c g newLabel := by
  intro s label t given
  obtain ⟨-, rfl⟩ := newLabel_eq_ok.mp given
  exact .refl

theorem report (uid : Uid) (problem : Problem) : Asks c g (report uid problem) := by
  intro s a t given
  rw [Lowering.report, Except.ok.injEq, Prod.mk.injEq] at given
  obtain ⟨-, rfl⟩ := given
  exact .refl

theorem constant {type : String} {value : Value} (stated : Constant c g type value) :
    Asks c g (constant type value) := by
  intro s slot t given
  obtain ⟨-, rfl⟩ := onHeap_eq_ok.mp given
  exact .single (.constant stated s.heap)

theorem scratch (type : String) : Asks c g (scratch type) := by
  intro s slot t given
  obtain ⟨-, rfl⟩ := onHeap_eq_ok.mp given
  exact .single (.scratch type s.heap)

theorem output (uid : Uid) (index : Nat) : Asks c g (output uid index) := by
  intro s slot t given
  obtain ⟨heap, request, rfl⟩ := onHeapOrFail_eq_ok.mp given
  exact .single (.output request)

theorem variableSlot (uid : Uid) : Asks c g (variableSlot uid) := by
  intro s slot t given
  obtain ⟨-, rfl⟩ := variableSlot_eq_ok.mp given
  exact .refl

theorem present {uid : Uid} {found : Option α} {f : α → Step β}
    (rest : ∀ a, found = some a → Asks c g (f a)) : Asks c g (Lowering.present uid found >>= f) := by
  intro s b t given
  obtain ⟨a, r, hpresent, hrest⟩ := bind_eq_ok.mp given
  obtain ⟨known, rfl⟩ := present_eq_ok.mp hpresent
  exact rest a known s b t hrest

theorem placed {uid : Uid} {f : Node × Definition → Step β}
    (rest : ∀ n d, Stands c g n d → Asks c g (f (n, d))) :
    Asks c g (Lowering.placed c g uid >>= f) := by
  intro s b t given
  obtain ⟨⟨n, d⟩, r, hplaced, hrest⟩ := bind_eq_ok.mp given
  obtain ⟨found, defined, rfl⟩ := placed_eq_ok.mp hplaced
  exact rest n d ⟨Graph.find?_mem found, defined⟩ s b t hrest

theorem entryName {n : Node} {f : Option String → Step β} (rest : Asks c g (f (claimedName? g n))) :
    Asks c g (entryName? g n >>= f) := by
  intro s b t given
  rw [bind_apply, entryName?_apply] at given
  have kept := rest _ b t given
  exact kept

end Asks

/-! ## Inputs -/

section Inputs

variable {c : Catalog} {g : Graph} {feed : List Uid → Link → Step Supply} {n : Node} {d : Definition}

theorem inputAs_asks (feeds : ∀ evaluated link, Asks c g (feed evaluated link)) {index : Nat}
    {declared : Option String}
    (stated : Constant c g (literalType declared (literal n d index)) (literal n d index))
    (evaluated : List Uid) : Asks c g (inputAs feed n d index declared evaluated) := by
  unfold inputAs
  split
  · exact feeds evaluated _
  · exact (Asks.constant stated).bind fun slot => Asks.pure _

theorem input_asks (feeds : ∀ evaluated link, Asks c g (feed evaluated link))
    (stands : Stands c g n d) (index : Nat) (evaluated : List Uid) :
    Asks c g (input feed n d index evaluated) :=
  inputAs_asks feeds (.input stands index) evaluated

theorem inputs_asks (feeds : ∀ evaluated link, Asks c g (feed evaluated link))
    (stands : Stands c g n d) (indices : List Nat) (evaluated : List Uid) :
    Asks c g (inputs feed n d indices evaluated) := by
  induction indices generalizing evaluated with
  | nil => exact Asks.pure _
  | cons index indices ih =>
    rw [inputs]
    refine (input_asks feeds stands index evaluated).bind fun first => ?_
    exact (ih first.evaluated).bind fun others => Asks.pure _

theorem callOf_asks (supplies : Supplies) : Asks c g (callOf n d supplies) :=
  (Asks.mapM fun index _ => Asks.output n.uid index).bind fun _ => Asks.pure _

theorem constant_of_sourceOf (stands : Stands c g n d) {type : String} {value : Value}
    (source : sourceOf n d = .literal type value) : Constant c g type value := by
  unfold sourceOf at source
  split at source
  · cases source
    exact .null
  · rename_i kind
    cases source
    exact .self stands kind
  · cases source
  · rename_i kind
    cases source
    exact .node stands kind
  · split at source <;> cases source

theorem supply_asks (depth : Nat) (visiting evaluated : List Uid) (link : Link) :
    Asks c g (supply c g depth visiting evaluated link) := by
  induction depth generalizing visiting evaluated link with
  | zero => exact Asks.throw _
  | succ depth ih =>
    have stored : Asks c g (do return ⟨[], ← output link.node link.output, evaluated⟩ : Step Supply) :=
      (Asks.output _ _).bind fun _ => Asks.pure _
    rw [supply_succ]
    refine Asks.placed fun n d stands => ?_
    dsimp only
    cases source : sourceOf n d with
    | literal type value =>
      exact (Asks.constant (constant_of_sourceOf stands source)).bind fun _ => Asks.pure _
    | «variable» uid => exact (Asks.variableSlot uid).bind fun _ => Asks.pure _
    | stored => exact stored
    | computed =>
      simp only [supplyFrom]
      split
      · exact stored
      · split
        · refine (Asks.report _ _).bind fun _ => ?_
          exact (Asks.constant .null).bind fun _ => Asks.pure _
        · refine (inputs_asks (ih _) stands _ _).bind fun supplies => ?_
          refine (callOf_asks supplies).bind fun code => ?_
          exact (Asks.output _ _).bind fun _ => Asks.pure _

end Inputs

/-! ## Flows -/

section Flows

variable {c : Catalog} {g : Graph} {feed : List Uid → Link → Step Supply}
  {follow : Uid → Target → Step (List Op)} {n : Node} {d : Definition}

theorem port_asks (follows : ∀ uid exit, Asks c g (follow uid exit)) (index : Nat) (exit : Target) :
    Asks c g (port follow n index exit) := by
  unfold port
  split
  · exact follows _ exit
  · exact Asks.pure _

theorem chains_asks (follows : ∀ uid exit, Asks c g (follow uid exit)) (exit : Target)
    (uids : List Uid) : Asks c g (chains follow exit uids) := by
  induction uids with
  | nil => exact Asks.pure _
  | cons uid rest ih =>
    cases rest with
    | nil => exact follows uid exit
    | cons next rest =>
      refine Asks.newLabel.bind fun after => ?_
      exact (follows uid _).bind fun code => ih.bind fun others => Asks.pure _

theorem choice_asks (follows : ∀ uid exit, Asks c g (follow uid exit)) (condition : Slot)
    (exit : Target) : Asks c g (choice follow n condition exit) :=
  Asks.newLabel.bind fun _ =>
    (port_asks follows 0 exit).bind fun _ => (port_asks follows 1 exit).bind fun _ => Asks.pure _

theorem counting_asks (follows : ∀ uid exit, Asks c g (follow uid exit))
    (index stop step inRange : Slot) (opening : List Op) (exit : Target) :
    Asks c g (counting follow n index stop step inRange opening exit) := by
  refine Asks.newLabel.bind fun header => Asks.newLabel.bind fun increment => ?_
  refine Asks.newLabel.bind fun done => ?_
  exact (port_asks follows 0 _).bind fun _ => (port_asks follows 1 exit).bind fun _ => Asks.pure _

private theorem notice_asks (target : Uid) (variableNode : Node) :
    Asks c g (notice g n d target variableNode) := by
  unfold notice
  split
  · refine (Asks.constant .receiver).bind fun this => ?_
    exact (Asks.constant (.event _)).bind fun event => Asks.pure _
  · exact Asks.pure []

theorem assignment_asks (feeds : ∀ evaluated link, Asks c g (feed evaluated link))
    (follows : ∀ uid exit, Asks c g (follow uid exit)) (stands : Stands c g n d)
    (assigns : d.kind = .setVariable ∨ d.kind = .setReturnValue) (exit : Target) :
    Asks c g (assignment g feed follow n d exit) := by
  rw [assignment_eq]
  refine Asks.present fun target bound => Asks.present fun variableNode found => ?_
  refine (Asks.variableSlot target).bind fun slot => ?_
  refine (inputAs_asks feeds (.assigned stands assigns bound found) []).bind fun value => ?_
  refine (notice_asks target variableNode).bind fun change => ?_
  exact (port_asks follows 0 exit).bind fun _ => Asks.pure _

theorem body_asks (feeds : ∀ evaluated link, Asks c g (feed evaluated link))
    (follows : ∀ uid exit, Asks c g (follow uid exit)) (stands : Stands c g n d) (exit : Target) :
    Asks c g (body g feed follow n d exit) := by
  have read : ∀ index evaluated, Asks c g (input feed n d index evaluated) :=
    input_asks feeds stands
  unfold body
  split
  · exact chains_asks follows exit _
  · exact (read 0 []).bind fun condition => (choice_asks follows _ exit).bind fun _ => Asks.pure _
  · refine (read 0 []).bind fun object => (Asks.scratch _).bind fun valid => ?_
    exact (choice_asks follows valid exit).bind fun _ => Asks.pure _
  · refine (read 0 []).bind fun start => (read 1 _).bind fun stop => (read 2 _).bind fun step => ?_
    refine (Asks.output _ _).bind fun index => (Asks.scratch _).bind fun inRange => ?_
    exact (counting_asks follows _ _ _ _ _ exit).bind fun _ => Asks.pure _
  · refine (read 0 []).bind fun array => (Asks.output _ _).bind fun item => ?_
    refine (Asks.constant (.count 0)).bind fun first => (Asks.constant (.count 1)).bind fun one => ?_
    refine (Asks.scratch _).bind fun index => (Asks.scratch _).bind fun length => ?_
    refine (Asks.scratch _).bind fun inRange => ?_
    exact (counting_asks follows _ _ _ _ _ exit).bind fun _ => Asks.pure _
  · refine Asks.newLabel.bind fun header => Asks.newLabel.bind fun done => ?_
    refine (read 0 []).bind fun condition => ?_
    exact (port_asks follows 0 _).bind fun _ => (port_asks follows 1 exit).bind fun _ => Asks.pure _
  · exact assignment_asks feeds follows stands (.inl ‹_›) exit
  · exact assignment_asks feeds follows stands (.inr ‹_›) exit
  · refine (inputs_asks feeds stands _ []).bind fun supplies => ?_
    refine (callOf_asks supplies).bind fun code => ?_
    exact (port_asks follows 0 exit).bind fun _ => Asks.pure _

end Flows

/-! ## Events -/

section Events

variable {c : Catalog} {g : Graph}

theorem chain_asks (depth : Nat) (uid : Uid) (exit : Target) : Asks c g (chain c g depth uid exit) := by
  induction depth generalizing uid exit with
  | zero =>
    intro s ops t given
    cases given
  | succ depth ih =>
    intro s ops t given
    rw [chain_succ] at given
    split at given
    · cases given
      exact .refl
    · have labelled : Asks c g (labelledBody c g depth uid exit s.nextLabel) :=
        Asks.placed fun n d stands =>
          (body_asks (supply_asks _ []) ih stands exit).bind fun code => Asks.pure _
      exact labelled (entered uid exit s) ops t given

private theorem nameParameters_asks {n : Node} {d : Definition} {entry : String}
    (event : n ∈ g.eventNodes) (defined : c.find? n.fullName = some d)
    (claims : claimedName? g n = some entry) (index : Nat) {parameters : List Parameter}
    (declared : ∀ p ∈ parameters, p ∈ d.outputs) :
    Asks c g (nameParameters n.uid entry index parameters) := by
  induction parameters generalizing index with
  | nil => exact Asks.pure ()
  | cons p rest ih =>
    rw [List.forall_mem_cons] at declared
    refine Asks.bind ?_ fun _ => ih (index + 1) declared.2
    intro s slot t given
    obtain ⟨heap, request, rfl⟩ := onHeapOrFail_eq_ok.mp given
    exact .single (.parameter event defined claims declared.1 request)

theorem entries_asks (taken : List String) {nodes : List Node}
    (events : ∀ n ∈ nodes, n ∈ g.eventNodes) : Asks c g (entries c g taken nodes) := by
  induction nodes generalizing taken with
  | nil => exact Asks.pure []
  | cons n nodes ih =>
    rw [List.forall_mem_cons] at events
    have rest := fun taken => ih taken events.2
    rw [entries]
    split
    · exact rest taken
    · rename_i d defined
      refine Asks.entryName ?_
      split
      · exact rest taken
      · rename_i name claims
        split
        · exact (Asks.report _ _).bind fun _ => rest taken
        · refine (nameParameters_asks events.1 defined claims 0 fun _ => id).bind fun _ => ?_
          exact (rest _).bind fun others => Asks.pure _

theorem streams_asks : Asks c g (streams c g) := by
  refine (entries_asks [] fun _ => id).bind fun found => Asks.mapM fun entry _ => ?_
  have emptied : Asks c g (modify fun s => { s with emitted := [] } : Step Unit) := by
    intro s a t given
    cases given
    exact .refl
  refine emptied.bind fun _ => ?_
  exact (port_asks (chain_asks _) 0 .halt).bind fun _ => Asks.pure _

end Events

end ScriptGraph.Lowering

theorem ScriptGraph.Compilation.lower_requests {c : Catalog} {snapshot : Graph}
    {diagnostics : List Diagnostic} {streams : List Stream} {lowering : Lowering}
    (lowered : lower c snapshot diagnostics = .ok (streams, lowering)) :
    Relation.ReflTransGen (Lowering.Request c snapshot) (.ofGraph c snapshot) lowering.heap :=
  Lowering.streams_asks ⟨.ofGraph c snapshot, diagnostics, 0, []⟩ streams lowering lowered
