import ScriptGraph.Proofs.Graph.Lookup
import ScriptGraph.Snapshot

/-!
Snapshots do not look at positions: the snapshot of a graph whose nodes have lost theirs is the
snapshot of the graph, its nodes without positions, and takes the same repairs.
-/

set_option autoImplicit false
set_option relaxedAutoImplicit false

namespace ScriptGraph

def Node.unplaced (n : Node) : Node := { n with position := .origin }

def Graph.unplaced (g : Graph) : Graph := g.mapNodes Node.unplaced

namespace Graph

variable {c : Catalog} {g : Graph} {n : Node}

theorem move_unplaced (g : Graph) (uid : Uid) (position : Position) :
    (g.update uid fun n => { n with position }).unplaced = g.unplaced := by
  have nodes : ∀ nodes : List Node, (updateFirst uid (fun n => { n with position }) nodes).map
      Node.unplaced = nodes.map Node.unplaced := by
    intro nodes
    induction nodes with
    | nil => rfl
    | cons n nodes ih =>
      rw [updateFirst]
      split
      · rfl
      · rw [List.map_cons, List.map_cons, ih]
  simp only [unplaced, mapNodes, update, nodes]

theorem find?_unplaced (uid : Uid) : g.unplaced.find? uid = (g.find? uid).map Node.unplaced :=
  find?_mapNodes fun _ => rfl

theorem targetName?_unplaced (n : Node) : g.unplaced.targetName? n.unplaced = g.targetName? n := by
  change n.target?.bind _ = n.target?.bind _
  congr 1
  funext uid
  rw [find?_unplaced, Option.bind_map]
  rfl

/-- What is kept of a graph is the same if it is chosen by what positions are no part of. -/
theorem filter_unplaced (keeps : Node → Bool) (same : ∀ n : Node, keeps n.unplaced = keeps n) :
    g.unplaced.nodes.filter keeps = (g.nodes.filter keeps).map Node.unplaced := by
  change (g.nodes.map Node.unplaced).filter keeps = _
  rw [List.filter_map]
  congr 2
  funext n
  exact same n

theorem removeComments_unplaced : g.unplaced.removeComments = g.removeComments.unplaced := by
  have kept := filter_unplaced (g := g) (fun n => n.kind ≠ .comment) fun _ => rfl
  simp only [removeComments, kept]
  rfl

theorem removeUndefined_unplaced (c : Catalog) (g : Graph) :
    g.unplaced.removeUndefined c =
      ((g.removeUndefined c).1.unplaced, (g.removeUndefined c).2) := by
  have kept := filter_unplaced (g := g) (fun n => (c.find? n.fullName).isSome) fun _ => rfl
  have removed := filter_unplaced (g := g) (fun n => (c.find? n.fullName).isNone) fun _ => rfl
  simp only [removeUndefined, kept, removed, List.map_map]
  rfl

theorem remove_unplaced (uid : Uid) : g.unplaced.remove uid = (g.remove uid).unplaced := by
  simp only [remove, unplaced, mapNodes, List.eraseP_map]
  rfl

theorem unresolved_unplaced : g.unplaced.unresolved = g.unresolved := by
  change (((g.nodes.map Node.unplaced).filter _).map Node.uid) = _
  rw [List.filter_map, List.map_map]
  refine congrArg (List.map Node.uid) (List.filter_congr fun n _ => ?_)
  rw [Function.comp_apply, targetName?_unplaced]
  rfl

theorem removeUnresolved_unplaced (g : Graph) :
    g.unplaced.removeUnresolved = (g.removeUnresolved.1.unplaced, g.removeUnresolved.2) := by
  have removes : ∀ (uids : List Uid) (g : Graph),
      uids.foldl remove g.unplaced = (uids.foldl remove g).unplaced := by
    intro uids
    induction uids with
    | nil => exact fun _ => rfl
    | cons uid uids ih =>
      intro g
      rw [List.foldl_cons, remove_unplaced, ih, List.foldl_cons]
  rw [removeUnresolved, unresolved_unplaced, removes, removeUnresolved]

theorem terminals_unplaced (c : Catalog) (g : Graph) : g.unplaced.terminals c = g.terminals c := by
  simp only [terminals, unplaced, mapNodes, List.filterMap_map]
  rfl

theorem restoreConnections_unplaced (c : Catalog) (g : Graph) :
    g.unplaced.restoreConnections c =
      ((g.restoreConnections c).1.unplaced, (g.restoreConnections c).2) := by
  simp only [restoreConnections, terminals_unplaced]
  simp only [unplaced, mapNodes, List.map_map, List.flatMap_map]
  congr 2
  refine List.map_congr_left fun n _ => ?_
  simp only [Function.comp_apply, Node.unplaced]
  cases c.find? n.fullName <;> rfl

theorem visit_unplaced (g : Graph) (depth : Nat) (uid : Uid) (s : Search) :
    Search.visit g.unplaced depth uid s = Search.visit g depth uid s := by
  induction depth generalizing uid s with
  | zero => rfl
  | succ depth ih =>
    have visits : Search.visit g.unplaced depth = Search.visit g depth :=
      funext fun uid => funext fun s => ih uid s
    rw [Search.visit, Search.visit, visits, find?_unplaced, Option.map_map]
    rfl

theorem closingFlows_unplaced (g : Graph) : g.unplaced.closingFlows = g.closingFlows := by
  have uids : g.unplaced.uids = g.uids := uids_mapNodes fun _ => rfl
  have length : g.unplaced.nodes.length = g.nodes.length := List.length_map _
  simp only [closingFlows, Search.run, uids, length, visit_unplaced]

theorem update_unplaced (change : Node → Node)
    (same : ∀ n : Node, change n.unplaced = (change n).unplaced) (uid : Uid) :
    g.unplaced.update uid change = (g.update uid change).unplaced := by
  have nodes : ∀ nodes : List Node, updateFirst uid change (nodes.map Node.unplaced) =
      (updateFirst uid change nodes).map Node.unplaced := by
    intro nodes
    induction nodes with
    | nil => rfl
    | cons n nodes ih =>
      rw [List.map_cons, updateFirst, updateFirst, ih]
      change (if n.uid = uid then _ else _) = _
      split
      · rw [same, List.map_cons]
      · rw [List.map_cons]
  simp only [update, unplaced, mapNodes, nodes]

theorem clearFlows_unplaced (g : Graph) (flows : List (Uid × Nat)) :
    g.unplaced.clearFlows flows = (g.clearFlows flows).unplaced := by
  unfold clearFlows
  induction flows generalizing g with
  | nil => rfl
  | cons flow flows ih =>
    have first := update_unplaced (g := g)
      (fun n => { n with flows := n.flows.set flow.2 none }) (fun _ => rfl) flow.1
    rw [List.foldl_cons, first, ih, List.foldl_cons]

theorem snapshot_unplaced (c : Catalog) (g : Graph) :
    g.unplaced.snapshot c = ((g.snapshot c).1.unplaced, (g.snapshot c).2) := by
  simp only [snapshot, removeComments_unplaced, removeUndefined_unplaced, removeUnresolved_unplaced,
    restoreConnections_unplaced, breakFlowCycles, clearFlows_unplaced, closingFlows_unplaced]

end Graph

end ScriptGraph
