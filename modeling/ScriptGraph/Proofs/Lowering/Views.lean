import ScriptGraph.Proofs.Catalog.Extension
import ScriptGraph.Proofs.Lowering.Streams
import ScriptGraph.Proofs.Snapshot.Unplaced

/-!
What lowering looks at. It sees neither where nodes are placed nor which flow outputs of a block are
free, so in a view of a graph that changes nothing else, every step that gives no node is the same step,
and what gives nodes gives them as they are in the view.
-/

set_option autoImplicit false
set_option relaxedAutoImplicit false

namespace ScriptGraph

namespace Node

def core (n : Node) : Node := { n with position := .origin, flows := [] }

/-- A view of nodes in which each has the place of its choice, and a block has its targets at the flow
outputs of its choice. -/
structure View (view : Node → Node) : Prop where
  core : ∀ n, (view n).core = n.core
  targets : ∀ n, (view n).targets = n.targets
  flows : ∀ n, n.kind ≠ .block → (view n).flows = n.flows

variable {view : Node → Node}

theorem View.same {α : Type} (seen : View view) (look : Node → α)
    (blind : ∀ n, look n.core = look n) (n : Node) : look (view n) = look n := by
  rw [← blind, seen.core, blind]

theorem View.unplaced (seen : View view) {n : Node} (other : n.kind ≠ .block) :
    (view n).unplaced = n.unplaced := by
  have flows := seen.flows n other
  have core := seen.core n
  cases shown : view n
  cases n
  rw [shown] at core flows
  simp only [Node.core, Node.mk.injEq] at core
  obtain ⟨rfl, rfl, -, rfl, rfl, -⟩ := core
  subst flows
  rfl

theorem view_unplaced : View Node.unplaced :=
  ⟨fun _ => rfl, fun _ => rfl, fun _ _ => rfl⟩

end Node

open Node (View)

variable {c : Catalog} {g : Graph} {view : Node → Node}

namespace Graph

theorem find?_view (seen : View view) (uid : Uid) :
    (g.mapNodes view).find? uid = (g.find? uid).map view :=
  find?_mapNodes (seen.same Node.uid fun _ => rfl)

/-- What is kept of a graph is the same if it is chosen by what a view does not change. -/
theorem filter_view (seen : View view) (keeps : Node → Bool)
    (blind : ∀ n : Node, keeps n.core = keeps n) :
    (g.mapNodes view).nodes.filter keeps = (g.nodes.filter keeps).map view := by
  change (g.nodes.map view).filter keeps = _
  rw [List.filter_map]
  congr 2
  funext n
  exact seen.same keeps blind n

theorem targetName?_view (seen : View view) (n : Node) :
    (g.mapNodes view).targetName? (view n) = g.targetName? n := by
  unfold targetName?
  rw [seen.same Node.target? fun _ => rfl]
  congr 1
  funext uid
  rw [find?_view seen, Option.bind_map]
  congr 1
  funext m
  exact seen.same Node.variableName? (fun _ => rfl) m

theorem variableNodes_view (seen : View view) :
    (g.mapNodes view).variableNodes = g.variableNodes.map view := by
  unfold variableNodes
  rw [filter_view seen _ fun _ => rfl]
  dsimp only
  rw [List.filter_map, List.filter_map, List.map_append]
  congr 3
  · funext n
    exact seen.same (fun n => !n.variableName?.any isInternalName) (fun _ => rfl) n
  · funext n
    exact seen.same (fun n => n.variableName?.any isInternalName) (fun _ => rfl) n

end Graph

theorem HeapLayout.ofGraph_view (seen : View view) : ofGraph c (g.mapNodes view) = ofGraph c g := by
  have types : outputTypesOf c (g.mapNodes view) = outputTypesOf c g := by
    unfold outputTypesOf Graph.mapNodes
    rw [List.filterMap_map]
    congr 2
    funext n
    exact seen.same (fun n => (c.find? n.fullName).map fun d =>
      (n.uid, d.outputs.map fun p => p.type.getD objectType)) (fun _ => rfl) n
  have slots : (fun (h : HeapLayout) n => (h.variableSlot (view n)).2) =
      fun h n => (h.variableSlot n).2 := by
    funext h n
    exact seen.same (fun n => (h.variableSlot n).2) (fun _ => rfl) n
  rw [ofGraph, Graph.variableNodes_view seen, List.foldl_map, types, slots, ofGraph]

namespace Lowering

variable {α : Type} {n : Node} {d : Definition} {feed : List Uid → Link → Step Supply}

theorem present_find?_view (seen : View view) (uid : Uid) (f : Node → Step α) :
    present uid ((g.mapNodes view).find? uid) >>= f =
      present uid (g.find? uid) >>= fun n => f (view n) := by
  rw [Graph.find?_view seen]
  cases g.find? uid <;> rfl

/-- What is done with a node may look at the view of the node, if that comes to the same. -/
theorem placed_view (seen : View view) (uid : Uid) {f h : Node × Definition → Step α}
    (same : ∀ n d, c.find? n.fullName = some d → f (view n, d) = h (n, d)) :
    placed c (g.mapNodes view) uid >>= f = placed c g uid >>= h := by
  unfold placed
  rw [bind_assoc, bind_assoc, present_find?_view seen]
  refine bind_congr fun n => ?_
  rw [seen.same Node.fullName fun _ => rfl]
  cases found : c.find? n.fullName with
  | none => rfl
  | some d => exact same n d found

/-! ## Inputs -/

theorem inputs_core (indices : List Nat) (evaluated : List Uid) :
    inputs feed n.core d indices evaluated = inputs feed n d indices evaluated := by
  induction indices generalizing evaluated with
  | nil => rfl
  | cons index indices ih =>
    simp only [inputs, ih]
    rfl

theorem supply_view (seen : View view) (depth : Nat) (visiting evaluated : List Uid) (link : Link) :
    supply c (g.mapNodes view) depth visiting evaluated link =
      supply c g depth visiting evaluated link := by
  induction depth generalizing visiting evaluated link with
  | zero => rfl
  | succ depth ih =>
    have feeds : supply c (g.mapNodes view) depth (link.node :: visiting) =
        supply c g depth (link.node :: visiting) := funext₂ (ih _)
    rw [supply_succ, supply_succ, feeds]
    refine placed_view seen link.node fun n d _ => ?_
    refine seen.same (fun n => supplyFrom (sourceOf n d)
      (compute (supply c g depth (link.node :: visiting)) n d evaluated link)
      (breakCycle evaluated link) visiting evaluated link) (fun n => ?_) n
    simp only [compute, inputs_core]
    rfl

theorem feedOf_view (seen : View view) : feedOf c (g.mapNodes view) = feedOf c g := by
  have length : (g.mapNodes view).nodes.length = g.nodes.length := List.length_map _
  rw [feedOf, length]
  exact funext₂ (supply_view seen _ _)

/-! ## Flows -/

variable {follow : Uid → Target → Step (List Op)}

theorem watched_view (seen : View view) : watched (g.mapNodes view) = watched g := by
  rw [watched, Graph.filter_view seen _ fun _ => rfl, List.filterMap_map]
  exact congrArg (List.filterMap · _) (funext (seen.same Node.target? fun _ => rfl))

theorem assignment_view (seen : View view) (exit : Target) :
    assignment (g.mapNodes view) feed follow n d exit = assignment g feed follow n d exit := by
  have types := seen.same Node.variableType? fun _ => rfl
  have names := seen.same Node.variableName? fun _ => rfl
  rw [assignment_eq, assignment_eq]
  simp only [present_find?_view seen, notice, watched_view seen, sendChange, types, names]

theorem body_mapNodes (seen : View view) (exit : Target) :
    body (g.mapNodes view) feed follow n d exit = body g feed follow n d exit := by
  unfold body
  rw [assignment_view seen]

theorem body_unplaced (exit : Target) :
    body g feed follow n.unplaced d exit = body g feed follow n d exit := by
  have fed : ∀ indices evaluated,
      inputs feed n.unplaced d indices evaluated = inputs feed n d indices evaluated := by
    intro indices evaluated
    rw [← inputs_core, ← inputs_core (n := n)]
    rfl
  unfold body
  simp only [call, fed]
  cases d.kind <;> rfl

theorem body_view (seen : View view) (kind : d.kind = n.kind) (exit : Target) :
    body (g.mapNodes view) feed follow (view n) d exit = body g feed follow n d exit := by
  rw [body_mapNodes seen]
  by_cases block : n.kind = .block
  · unfold body
    rw [kind, block]
    exact congrArg (chains follow exit) (seen.targets n)
  · rw [← body_unplaced, seen.unplaced block, body_unplaced]

theorem chain_view (seen : View view) (depth : Nat) (uid : Uid) (exit : Target) :
    chain c (g.mapNodes view) depth uid exit = chain c g depth uid exit := by
  induction depth generalizing uid exit with
  | zero => rfl
  | succ depth ih =>
    have follows : chain c (g.mapNodes view) depth = chain c g depth := funext₂ ih
    have labelled : ∀ label, labelledBody c (g.mapNodes view) depth uid exit label =
        labelledBody c g depth uid exit label := by
      intro label
      refine placed_view seen uid fun n d found => ?_
      rw [follows, feedOf_view seen]
      dsimp only
      rw [body_view seen (Catalog.find?_kind found)]
    funext s
    rw [chain_succ, chain_succ, labelled]

/-! ## Events -/

theorem entryName?_view (seen : View view) (n : Node) :
    entryName? (g.mapNodes view) (view n) = entryName? g n := by
  have kind := seen.same Node.kind (fun _ => rfl) n
  have values := seen.same Node.values (fun _ => rfl) n
  have fullName := seen.same Node.fullName (fun _ => rfl) n
  have uid := seen.same Node.uid (fun _ => rfl) n
  have claims : claimedName? (g.mapNodes view) (view n) = claimedName? g n := by
    unfold claimedName?
    rw [kind, values, Graph.targetName?_view seen, fullName]
  rw [entryName?_eq, entryName?_eq, claims, kind, uid]

theorem entries_view (seen : View view) (taken : List String) (nodes : List Node) :
    entries c (g.mapNodes view) taken (nodes.map view) =
      List.map (Prod.map id view) <$> entries c g taken nodes := by
  induction nodes generalizing taken with
  | nil => rfl
  | cons n nodes ih =>
    have fullName := seen.same Node.fullName (fun _ => rfl) n
    have uid := seen.same Node.uid (fun _ => rfl) n
    rw [List.map_cons, entries, entries, fullName]
    cases c.find? n.fullName with
    | none => exact ih taken
    | some d =>
      simp only [entryName?_view seen, uid, ih, map_bind]
      congr 1
      funext claimed
      cases claimed with
      | none => rfl
      | some name =>
        simp only
        split
        · rw [map_bind]
        · simp only [map_bind, map_pure, bind_map_left]
          rfl

theorem stream_view (seen : View view) (name : String) {n : Node} (other : n.kind ≠ .block) :
    stream c (g.mapNodes view) name (view n) = stream c g name n := by
  have length : (g.mapNodes view).nodes.length = g.nodes.length := List.length_map _
  have follows : chain c (g.mapNodes view) (g.nodes.length + 1) = chain c g (g.nodes.length + 1) :=
    funext₂ (chain_view seen _)
  rw [stream, length, follows, stream, port, port, seen.flows n other]

private theorem mapM_congr_left {β : Type} {as : List α} {f h : α → Step β}
    (same : ∀ a ∈ as, f a = h a) : as.mapM f = as.mapM h := by
  induction as with
  | nil => rfl
  | cons a as ih =>
    rw [List.forall_mem_cons] at same
    rw [List.mapM_cons, List.mapM_cons, same.1, ih same.2]

theorem streams_view (seen : View view) : streams c (g.mapNodes view) = streams c g := by
  have events : (g.mapNodes view).eventNodes = g.eventNodes.map view :=
    Graph.filter_view seen _ fun _ => rfl
  rw [streams, streams, events, entries_view seen, bind_map_left]
  funext s
  rw [bind_apply, bind_apply]
  cases given : entries c g [] g.eventNodes s with
  | error error => rfl
  | ok result =>
    obtain ⟨found, t⟩ := result
    have each : ∀ entry ∈ found, stream c (g.mapNodes view) entry.1 (view entry.2) =
        stream c g entry.1 entry.2 := by
      intro entry listed
      have there := (entries_eq_ok given).1.node_mem listed
      have event : entry.2.kind.isEvent := (List.mem_filter.mp there).2
      refine stream_view seen entry.1 fun block => ?_
      rw [block] at event
      cases event
    dsimp only
    rw [List.mapM_map]
    exact congrFun (mapM_congr_left each) t

end Lowering

end ScriptGraph
