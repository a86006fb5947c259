import ScriptGraph.Proofs.HeapLayout.Variables
import ScriptGraph.Proofs.Lowering.Streams
import ScriptGraph.Proofs.Renaming.Snapshot
import Mathlib.Data.Prod.Basic

/-!
Lowering under renaming. Names of slots come from types and variables, never from uids, so a renamed
layout of the heap grants the same slots with the same symbols. Every step of lowering the renamed graph
does to the renamed state what the step of the graph does to the state, and emits the same code.
-/

set_option autoImplicit false
set_option relaxedAutoImplicit false

/-! ## Layouts of heaps -/

namespace ScriptGraph

variable {ρ : Uid → Uid}

def CompileError.rename (ρ : Uid → Uid) : CompileError → CompileError
  | .absentNode uid => .absentNode (ρ uid)
  | .absentOutput uid output available => .absentOutput (ρ uid) output available
  | error => error

def renamedOutcome {α β : Type} (ρ : Uid → Uid) (change : α → β)
    (outcome : Except CompileError α) : Except CompileError β :=
  (outcome.map change).mapError (CompileError.rename ρ)

namespace HeapLayout

def rename (ρ : Uid → Uid) (h : HeapLayout) : HeapLayout :=
  { h with
    outputTypes := h.outputTypes.map (Prod.map ρ id)
    outputs := h.outputs.map (Prod.map (Prod.map ρ id) id)
    variableSlots := h.variableSlots.map (Prod.map ρ id) }

variable {h : HeapLayout}

theorem rename_findVariable? (injective : ρ.Injective) (uid : Uid) :
    (h.rename ρ).findVariable? (ρ uid) = h.findVariable? uid := by
  rw [findVariable?, rename, lookup_map_prodMap injective, Option.map_id_fun, id, findVariable?]

theorem variableSymbol_rename {n : Node} (named : n.variableName?.isSome) :
    variableSymbol (n.rename ρ) = variableSymbol n := by
  obtain ⟨name, hname⟩ := Option.isSome_iff_exists.mp named
  have declares : n.isVariable := by
    rw [Node.variableName?] at hname
    split at hname
    · assumption
    · cases hname
  have hvalues : (n.rename ρ).values = n.values := Node.rename_values_of_isVariable declares
  have hpublic : (n.rename ρ).isPublic = n.isPublic := by rw [Node.isPublic, hvalues, Node.isPublic]
  have hsynced : (n.rename ρ).isSynced = n.isSynced := by rw [Node.isSynced, hvalues, Node.isSynced]
  have hmode : (n.rename ρ).syncMode = n.syncMode := by rw [Node.syncMode, hvalues, Node.syncMode]
  rw [variableSymbol, variableSymbol, Node.rename_variableName?, hname, hvalues, hpublic, hsynced,
    hmode, Node.rename_variableType?]
  rfl

theorem rename_variableSlot (injective : ρ.Injective) {n : Node} (named : n.variableName?.isSome) :
    (h.rename ρ).variableSlot (n.rename ρ) =
      ((h.variableSlot n).1, (h.variableSlot n).2.rename ρ) := by
  have hfound : (h.rename ρ).variableSlots.lookup (n.rename ρ).uid =
      h.variableSlots.lookup n.uid := rename_findVariable? injective n.uid
  unfold variableSlot
  rw [hfound, variableSymbol_rename named]
  cases h.variableSlots.lookup n.uid <;> rfl

theorem rename_outputType (injective : ρ.Injective) (uid : Uid) (output : Nat) :
    (h.rename ρ).outputType (ρ uid) output = renamedOutcome ρ id (h.outputType uid output) := by
  have hfound : (h.rename ρ).outputTypes.lookup (ρ uid) = h.outputTypes.lookup uid := by
    rw [rename, lookup_map_prodMap injective, Option.map_id_fun, id]
  unfold outputType
  rw [hfound]
  cases h.outputTypes.lookup uid with
  | none => rfl
  | some types =>
    simp only
    cases types[output]? <;> rfl

private theorem rename_outputs (injective : ρ.Injective) (uid : Uid) (output : Nat) :
    (h.rename ρ).outputs.lookup (ρ uid, output) = h.outputs.lookup (uid, output) := by
  have hpair : (Prod.map ρ (id : Nat → Nat)).Injective := injective.prodMap Function.injective_id
  have hlookup := lookup_map_prodMap hpair (id : Slot → Slot) (uid, output) h.outputs
  rwa [Option.map_id_fun, id] at hlookup

theorem rename_outputSlot (injective : ρ.Injective) (uid : Uid) (output : Nat) :
    (h.rename ρ).outputSlot (ρ uid) output =
      renamedOutcome ρ (Prod.map id (rename ρ)) (h.outputSlot uid output) := by
  unfold outputSlot
  rw [rename_outputType injective, rename_outputs injective]
  cases h.outputType uid output with
  | error error => rfl
  | ok type =>
    simp only [renamedOutcome, Except.map, Except.mapError, id]
    cases h.outputs.lookup (uid, output) <;> rfl

theorem rename_namedOutputSlot (injective : ρ.Injective) (uid : Uid) (output : Nat)
    (name : String) : (h.rename ρ).namedOutputSlot (ρ uid) output name =
      renamedOutcome ρ (Prod.map id (rename ρ)) (h.namedOutputSlot uid output name) := by
  unfold namedOutputSlot
  rw [rename_outputType injective, rename_outputs injective]
  cases h.outputType uid output with
  | error error => rfl
  | ok type =>
    simp only [renamedOutcome, Except.map, Except.mapError, id]
    cases h.outputs.lookup (uid, output) <;> rfl

theorem rename_constantSlot (type : String) (value : Value) :
    (h.rename ρ).constantSlot type value =
      Prod.map id (rename ρ) (h.constantSlot type value) := by
  have hfound : (h.rename ρ).constants = h.constants := rfl
  unfold constantSlot
  rw [hfound]
  cases h.constants.lookup (type, value) <;> rfl

theorem rename_scratchSlot (type : String) :
    (h.rename ρ).scratchSlot type = Prod.map id (rename ρ) (h.scratchSlot type) := rfl

variable {c : Catalog} {g : Graph}

theorem outputTypesOf_rename :
    outputTypesOf c (g.rename ρ) = (outputTypesOf c g).map (Prod.map ρ id) := by
  rw [outputTypesOf, outputTypesOf, Graph.rename_nodes, List.filterMap_map, List.map_reverse,
    List.map_filterMap]
  congr 2
  funext n
  rw [Function.comp_apply, Node.rename_fullName, Option.map_map]
  rfl

theorem ofGraph_rename (injective : ρ.Injective) :
    ofGraph c (g.rename ρ) = (ofGraph c g).rename ρ := by
  have hfold : ∀ (nodes : List Node) (h : HeapLayout), (∀ n ∈ nodes, n.variableName?.isSome) →
      (nodes.map (Node.rename ρ)).foldl (fun h n => (h.variableSlot n).2) (h.rename ρ) =
        (nodes.foldl (fun h n => (h.variableSlot n).2) h).rename ρ := by
    intro nodes
    induction nodes with
    | nil => exact fun h _ => rfl
    | cons n nodes ih =>
      intro h named
      rw [List.forall_mem_cons] at named
      rw [List.map_cons, List.foldl_cons, List.foldl_cons, rename_variableSlot injective named.1,
        ih _ named.2]
  rw [ofGraph, Graph.rename_variableNodes, outputTypesOf_rename]
  exact hfold g.variableNodes ⟨#[], outputTypesOf c g, [], [], [], []⟩
    fun n hn => (Graph.mem_variableNodes.mp hn).2

end HeapLayout

end ScriptGraph

/-! ## Inputs -/

namespace ScriptGraph.Lowering

variable {ρ : Uid → Uid} {α β γ δ : Type}

def rename (ρ : Uid → Uid) (s : Lowering) : Lowering :=
  { s with
    heap := s.heap.rename ρ
    diagnostics := s.diagnostics.map (Diagnostic.rename ρ)
    emitted := s.emitted.map (Prod.map (Prod.map ρ id) id) }

def Supply.rename (ρ : Uid → Uid) (supplied : Supply) : Supply :=
  { supplied with evaluated := supplied.evaluated.map ρ }

def Supplies.rename (ρ : Uid → Uid) (supplies : Supplies) : Supplies :=
  { supplies with evaluated := supplies.evaluated.map ρ }

/-- A step that does to renamed states what another does to the states, with a changed result. -/
def Tracks (ρ : Uid → Uid) (change : α → β) (x : Step α) (y : Step β) : Prop :=
  ∀ s, y (s.rename ρ) = renamedOutcome ρ (Prod.map change (rename ρ)) (x s)

namespace Tracks

theorem pure (change : α → β) (a : α) :
    Tracks ρ change (Pure.pure a : Step α) (Pure.pure (change a)) :=
  fun _ => rfl

theorem throw (change : α → β) (error : CompileError) :
    Tracks ρ change (throw error : Step α) (MonadExcept.throw (error.rename ρ)) :=
  fun _ => rfl

theorem bind_of {first : α → β} {second : γ → δ} {x : Step α} {y : Step β} {f : α → Step γ}
    {k : β → Step δ} (begins : Tracks ρ first x y)
    (continues : ∀ a s t, x s = .ok (a, t) → Tracks ρ second (f a) (k (first a))) :
    Tracks ρ second (x >>= f) (y >>= k) := by
  intro s
  rw [bind_apply, bind_apply, begins s]
  cases hx : x s with
  | error error => rfl
  | ok result => exact continues result.1 s result.2 hx result.2

theorem bind {first : α → β} {second : γ → δ} {x : Step α} {y : Step β} {f : α → Step γ}
    {k : β → Step δ} (begins : Tracks ρ first x y)
    (continues : ∀ a, Tracks ρ second (f a) (k (first a))) :
    Tracks ρ second (x >>= f) (y >>= k) :=
  bind_of begins fun a _ _ _ => continues a

theorem mapM {view : α → β} {change : γ → δ} {f : α → Step γ} {k : β → Step δ} {as : List α}
    (each : ∀ a ∈ as, Tracks ρ change (f a) (k (view a))) :
    Tracks ρ (List.map change) (as.mapM f) ((as.map view).mapM k) := by
  induction as with
  | nil => exact pure (List.map change) []
  | cons a as ih =>
    rw [List.forall_mem_cons] at each
    rw [List.map_cons, List.mapM_cons, List.mapM_cons]
    refine bind each.1 fun b => ?_
    refine bind (ih each.2) fun bs => ?_
    exact pure (List.map change) (b :: bs)

theorem newLabel : Tracks ρ id newLabel newLabel := fun _ => rfl

theorem report (uid : Uid) (problem : Problem) :
    Tracks ρ id (report uid problem) (report (ρ uid) (problem.rename ρ)) := by
  intro s
  simp only [Lowering.report, rename, renamedOutcome, Except.map, Except.mapError, Prod.map_apply,
    List.map_append, List.map_cons, List.map_nil, Diagnostic.rename, id]

theorem constant (type : String) (value : Value) :
    Tracks ρ id (constant type value) (constant type value) := by
  intro s
  have hslot := HeapLayout.rename_constantSlot (ρ := ρ) (h := s.heap) type value
  simp only [Lowering.constant, onHeap, rename, hslot]
  rfl

theorem scratch (type : String) : Tracks ρ id (scratch type) (scratch type) := by
  intro s
  have hslot := HeapLayout.rename_scratchSlot (ρ := ρ) (h := s.heap) type
  simp only [Lowering.scratch, onHeap, rename, hslot]
  rfl

theorem onHeapOrFail {request request' : HeapLayout → Except CompileError (α × HeapLayout)}
    (same : ∀ h, request' (h.rename ρ) =
      renamedOutcome ρ (Prod.map id (HeapLayout.rename ρ)) (request h)) :
    Tracks ρ id (onHeapOrFail request) (onHeapOrFail request') := by
  intro s
  have hsame := same s.heap
  simp only [Lowering.onHeapOrFail, rename, hsame]
  cases request s.heap <;> rfl

theorem output (injective : ρ.Injective) (uid : Uid) (index : Nat) :
    Tracks ρ id (output uid index) (output (ρ uid) index) :=
  onHeapOrFail fun _ => HeapLayout.rename_outputSlot injective uid index

theorem outputs (injective : ρ.Injective) (uid : Uid) (count : Nat) :
    Tracks ρ id (outputs uid count) (outputs (ρ uid) count) := by
  have hmapM : Tracks ρ (List.map id) ((List.range count).mapM (Lowering.output uid))
      (((List.range count).map id).mapM (Lowering.output (ρ uid))) :=
    mapM fun index _ => output injective uid index
  rwa [List.map_id, List.map_id_fun] at hmapM

theorem variableSlot (injective : ρ.Injective) (uid : Uid) :
    Tracks ρ id (variableSlot uid) (variableSlot (ρ uid)) := by
  intro s
  have hfound := HeapLayout.rename_findVariable? (h := s.heap) injective uid
  unfold Lowering.variableSlot
  rw [rename, hfound]
  cases s.heap.findVariable? uid <;> rfl

theorem present (change : α → β) (uid : Uid) (found : Option α) :
    Tracks ρ change (present uid found) (present (ρ uid) (found.map change)) := by
  cases found with
  | none => exact throw change (.absentNode uid)
  | some a => exact pure change a

variable {c : Catalog} {g : Graph}

theorem placed (injective : ρ.Injective) (uid : Uid) :
    Tracks ρ (Prod.map (Node.rename ρ) id) (placed c g uid) (placed c (g.rename ρ) (ρ uid)) := by
  unfold Lowering.placed
  rw [Graph.rename_find? injective]
  refine (present (Node.rename ρ) uid _).bind fun n => ?_
  have hdefinition : Tracks ρ id (Lowering.present uid (c.find? n.fullName))
      (Lowering.present (ρ uid) ((c.find? n.fullName).map id)) := present id uid _
  rw [Option.map_id_fun, id] at hdefinition
  exact hdefinition.bind fun d => pure (Prod.map (Node.rename ρ) id) (n, d)

end Tracks

theorem contains_map (injective : ρ.Injective) (uids : List Uid) (uid : Uid) :
    (uids.map ρ).contains (ρ uid) = uids.contains uid := by
  rw [Bool.eq_iff_iff, List.contains_iff_mem, List.contains_iff_mem]
  exact List.mem_map_of_injective injective

/-! ## Inputs -/

section Inputs

variable {feed feed' : List Uid → Link → Step Supply} {n : Node} {d : Definition}

def TracksFeed (ρ : Uid → Uid) (feed feed' : List Uid → Link → Step Supply) : Prop :=
  ∀ evaluated link,
    Tracks ρ (Supply.rename ρ) (feed evaluated link) (feed' (evaluated.map ρ) (link.rename ρ))

theorem literal_rename {index : Nat} (kept : n.access? = none ∨ 0 < index) :
    literal (n.rename ρ) d index = literal n d index := by
  have hvalue : (n.rename ρ).values[index]? = n.values[index]? := by
    rcases kept with unbound | later
    · rw [Node.rename_values unbound]
    · exact Node.rename_values_getElem? later
  rw [literal, literal, hvalue]

theorem inputAs_tracks (feeds : TracksFeed ρ feed feed') {index : Nat}
    (kept : n.access? = none ∨ 0 < index) (declared : Option String) (evaluated : List Uid) :
    Tracks ρ (Supply.rename ρ) (inputAs feed n d index declared evaluated)
      (inputAs feed' (n.rename ρ) d index declared (evaluated.map ρ)) := by
  have hlink : (n.rename ρ).links[index]?.join = n.links[index]?.join.map (Link.rename ρ) := by
    rw [Node.rename_links, List.getElem?_map]
    cases n.links[index]? <;> rfl
  unfold inputAs
  rw [hlink, literal_rename kept]
  cases n.links[index]?.join with
  | some link => exact feeds evaluated link
  | none =>
    exact (Tracks.constant _ _).bind fun slot =>
      Tracks.pure (Supply.rename ρ) ⟨[], slot, evaluated⟩

theorem input_tracks (feeds : TracksFeed ρ feed feed') (unbound : n.access? = none) (index : Nat)
    (evaluated : List Uid) : Tracks ρ (Supply.rename ρ) (input feed n d index evaluated)
      (input feed' (n.rename ρ) d index (evaluated.map ρ)) :=
  inputAs_tracks feeds (Or.inl unbound) _ evaluated

theorem inputs_tracks (feeds : TracksFeed ρ feed feed') (unbound : n.access? = none)
    (indices : List Nat) (evaluated : List Uid) :
    Tracks ρ (Supplies.rename ρ) (inputs feed n d indices evaluated)
      (inputs feed' (n.rename ρ) d indices (evaluated.map ρ)) := by
  induction indices generalizing evaluated with
  | nil => exact Tracks.pure (Supplies.rename ρ) ⟨[], [], evaluated⟩
  | cons index indices ih =>
    rw [inputs, inputs]
    refine (input_tracks feeds unbound index evaluated).bind fun first => ?_
    refine (ih first.evaluated).bind fun others => ?_
    exact Tracks.pure (Supplies.rename ρ)
      ⟨first.code ++ others.code, first.slot :: others.slots, others.evaluated⟩

theorem callOf_tracks (injective : ρ.Injective) (supplies : Supplies) :
    Tracks ρ id (callOf n d supplies) (callOf (n.rename ρ) d (supplies.rename ρ)) :=
  (Tracks.outputs injective n.uid _).bind fun results =>
    Tracks.pure id (supplies.code ++ [.call d.fullName (supplies.slots ++ results)])

theorem compute_tracks (injective : ρ.Injective) (feeds : TracksFeed ρ feed feed')
    (unbound : n.access? = none) (evaluated : List Uid) (link : Link) :
    Tracks ρ (Supply.rename ρ) (compute feed n d evaluated link)
      (compute feed' (n.rename ρ) d (evaluated.map ρ) (link.rename ρ)) := by
  unfold compute
  refine (inputs_tracks feeds unbound _ evaluated).bind fun supplies => ?_
  refine (callOf_tracks (n := { n with uid := link.node }) injective supplies).bind fun code => ?_
  refine (Tracks.output injective link.node link.output).bind fun slot => ?_
  exact Tracks.pure (Supply.rename ρ) ⟨code, slot, link.node :: supplies.evaluated⟩

theorem breakCycle_tracks (evaluated : List Uid) (link : Link) :
    Tracks ρ (Supply.rename ρ) (breakCycle evaluated link)
      (breakCycle (evaluated.map ρ) (link.rename ρ)) :=
  (Tracks.report link.node .valueCycle).bind fun _ =>
    (Tracks.constant objectType .null).bind fun slot =>
      Tracks.pure (Supply.rename ρ) ⟨[], slot, evaluated⟩

def Source.rename (ρ : Uid → Uid) : Source → Source
  | .variable uid => .variable (ρ uid)
  | source => source

theorem sourceOf_rename (injective : ρ.Injective) (empty : ρ "" = "") (same : d.kind = n.kind) :
    sourceOf (n.rename ρ) d = (sourceOf n d).rename ρ := by
  unfold sourceOf
  cases kind : d.kind with
  | nullConstant => rfl
  | thisConstant => rfl
  | getVariable =>
    have htarget : (n.target?.map ρ).getD "" = ρ (n.target?.getD "") := by
      cases n.target? with
      | none => exact empty.symm
      | some uid => rfl
    simp only [Node.rename_target? injective empty, htarget, Source.rename]
  | constant =>
    have unbound : n.access? = none := by
      rw [Node.access?, ← same, kind]
      rfl
    simp only [Node.rename_values unbound, Source.rename]
  | _ => cases d.flow <;> rfl

theorem supplyFrom_tracks (injective : ρ.Injective) (source : Source)
    {computation computation' cycle cycle' : Step Supply} (visiting evaluated : List Uid)
    (link : Link)
    (computes : source = .computed → Tracks ρ (Supply.rename ρ) computation computation')
    (cycles : Tracks ρ (Supply.rename ρ) cycle cycle') :
    Tracks ρ (Supply.rename ρ) (supplyFrom source computation cycle visiting evaluated link)
      (supplyFrom (source.rename ρ) computation' cycle' (visiting.map ρ) (evaluated.map ρ)
        (link.rename ρ)) := by
  have stored : Tracks ρ (Supply.rename ρ)
      (do return ⟨[], ← output link.node link.output, evaluated⟩)
      (do return ⟨[], ← output (ρ link.node) link.output, evaluated.map ρ⟩) :=
    (Tracks.output injective link.node link.output).bind fun slot =>
      Tracks.pure (Supply.rename ρ) ⟨[], slot, evaluated⟩
  cases source with
  | literal type value =>
    exact (Tracks.constant type value).bind fun slot =>
      Tracks.pure (Supply.rename ρ) ⟨[], slot, evaluated⟩
  | «variable» uid =>
    exact (Tracks.variableSlot injective uid).bind fun slot =>
      Tracks.pure (Supply.rename ρ) ⟨[], slot, evaluated⟩
  | stored => exact stored
  | computed =>
    simp only [supplyFrom, Source.rename, Link.rename, contains_map injective]
    split
    · exact stored
    · split
      · exact cycles
      · exact computes rfl

end Inputs

section Supply

variable {c : Catalog} {g : Graph}

theorem unbound_of_computed (extension : c.Extends) {n : Node} {d : Definition}
    (defined : c.find? n.fullName = some d) (computed : sourceOf n d = .computed) :
    n.access? = none := by
  have same : d.kind = n.kind := Catalog.find?_kind defined
  rw [← Option.not_isSome_iff_eq_none]
  intro access
  rw [Node.access?, ← same] at access
  have hflow := extension.flow_of_access defined access
  unfold sourceOf at computed
  cases kind : d.kind with
  | getVariable =>
    rw [kind] at computed
    cases computed
  | setVariable => simp [kind, hflow] at computed
  | setReturnValue => simp [kind, hflow] at computed
  | changeEvent => simp [kind, hflow] at computed
  | _ =>
    rw [kind] at access
    cases access

theorem supply_tracks (extension : c.Extends) (injective : ρ.Injective) (empty : ρ "" = "")
    (depth : Nat) (visiting : List Uid) :
    TracksFeed ρ (supply c g depth visiting)
      (supply c (g.rename ρ) depth (visiting.map ρ)) := by
  induction depth generalizing visiting with
  | zero => exact fun evaluated link => Tracks.throw (Supply.rename ρ) (.absentNode link.node)
  | succ depth ih =>
    intro evaluated link
    rw [supply_succ, supply_succ]
    refine (Tracks.placed injective link.node).bind_of ?_
    rintro ⟨n, d⟩ s t placed
    obtain ⟨-, defined, -⟩ := placed_eq_ok.mp placed
    have hsource := sourceOf_rename injective empty (Catalog.find?_kind defined)
    simp only [Prod.map_apply, id, hsource]
    refine supplyFrom_tracks injective _ visiting evaluated link (fun computed => ?_)
      (breakCycle_tracks evaluated link)
    exact compute_tracks injective (ih (link.node :: visiting))
      (unbound_of_computed extension defined computed) evaluated link

theorem feedOf_tracks (extension : c.Extends) (injective : ρ.Injective) (empty : ρ "" = "") :
    TracksFeed ρ (feedOf c g) (feedOf c (g.rename ρ)) := by
  have hlength : (g.rename ρ).nodes.length = g.nodes.length := List.length_map _
  unfold feedOf
  rw [hlength]
  exact supply_tracks extension injective empty _ []

end Supply

end ScriptGraph.Lowering
