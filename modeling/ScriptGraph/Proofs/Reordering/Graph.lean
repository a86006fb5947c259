import ScriptGraph.Proofs.Graph.Lookup
import ScriptGraph.Proofs.Lookup
import ScriptGraph.Proofs.Lowering.Streams
import ScriptGraph.Proofs.Snapshot.Nodes

/-!
Graphs whose variables are listed in another order. Nodes are looked up by uid, so with distinct uids
nothing is looked up differently, and what is listed of other nodes is listed alike. All repairs but the
breaking of flow cycles look at single nodes and look others up, so the order matters to snapshots only
where flow has cycles, and to lowering only for the heap that it starts with.
-/

set_option autoImplicit false
set_option relaxedAutoImplicit false

namespace ScriptGraph.Graph

/-- A graph with the same nodes, those that declare no variable in the same order. -/
structure Reorders (g h : Graph) : Prop where
  same : h.nodes.Perm g.nodes
  others : h.nodes.filter (fun n => !n.isVariable) = g.nodes.filter fun n => !n.isVariable

namespace Reorders

variable {g h : Graph} {keeps : Node → Bool}

theorem mem_iff (reorders : g.Reorders h) {n : Node} : n ∈ h.nodes ↔ n ∈ g.nodes :=
  reorders.same.mem_iff

theorem length_eq (reorders : g.Reorders h) : h.nodes.length = g.nodes.length :=
  reorders.same.length_eq

theorem distinct (reorders : g.Reorders h) (distinct : g.uids.Nodup) : h.uids.Nodup :=
  (reorders.same.map Node.uid).nodup_iff.mpr distinct

theorem find? (reorders : g.Reorders h) (distinct : g.uids.Nodup) : h.find? = g.find? := by
  funext uid
  refine Option.ext fun n => ?_
  rw [find?_eq_some_iff distinct, find?_eq_some_iff (reorders.distinct distinct), reorders.mem_iff]

theorem targetName? (reorders : g.Reorders h) (distinct : g.uids.Nodup) (n : Node) :
    h.targetName? n = g.targetName? n := by
  rw [Graph.targetName?, reorders.find? distinct, Graph.targetName?]

theorem filter_others (reorders : g.Reorders h) (other : ∀ n, keeps n → n.isVariable = false) :
    h.nodes.filter keeps = g.nodes.filter keeps := by
  have twice : ∀ nodes : List Node,
      (nodes.filter fun n => !n.isVariable).filter keeps = nodes.filter keeps := by
    intro nodes
    rw [List.filter_filter]
    refine List.filter_congr fun n _ => ?_
    cases chosen : keeps n with
    | false => rfl
    | true => rw [other n chosen]; rfl
  rw [← twice h.nodes, reorders.others, twice]

theorem filter (reorders : g.Reorders h) (keeps : Node → Bool) :
    ({ g with nodes := g.nodes.filter keeps } : Graph).Reorders
      { h with nodes := h.nodes.filter keeps } := by
  refine ⟨reorders.same.filter keeps, ?_⟩
  dsimp only
  rw [List.filter_comm, reorders.others, List.filter_comm]

theorem mapNodes (reorders : g.Reorders h) {change : Node → Node}
    (keeps : ∀ n, (change n).isVariable = n.isVariable) :
    (g.mapNodes change).Reorders (h.mapNodes change) := by
  have commutes : ∀ nodes : List Node, (nodes.map change).filter (fun n => !n.isVariable) =
      (nodes.filter fun n => !n.isVariable).map change := by
    intro nodes
    rw [List.filter_map]
    congr 1
    exact List.filter_congr fun n _ => by rw [Function.comp_apply, keeps]
  refine ⟨reorders.same.map change, ?_⟩
  change (h.nodes.map change).filter _ = (g.nodes.map change).filter _
  rw [commutes, reorders.others, commutes]

theorem eventNodes (reorders : g.Reorders h) : h.eventNodes = g.eventNodes := by
  refine reorders.filter_others fun n event => ?_
  rw [Node.isVariable, decide_eq_false_iff_not]
  intro kind
  rw [Node.isEvent, kind] at event
  cases event

theorem variableNodes (reorders : g.Reorders h) : h.variableNodes.Perm g.variableNodes := by
  unfold Graph.variableNodes
  exact ((reorders.same.filter _).filter _).append ((reorders.same.filter _).filter _)

theorem lookup (reorders : g.Reorders h) (distinct : g.uids.Nodup) {β : Type}
    (entry : Node → Option β) (uid : Uid) :
    ((h.nodes.filterMap fun n => (entry n).map fun b => (n.uid, b)).reverse).lookup uid =
      ((g.nodes.filterMap fun n => (entry n).map fun b => (n.uid, b)).reverse).lookup uid := by
  have keys : ∀ nodes : List Node,
      (((nodes.filterMap fun n => (entry n).map fun b => (n.uid, b))).map Prod.fst).Sublist
        (nodes.map Node.uid) := by
    intro nodes
    induction nodes with
    | nil => exact .refl _
    | cons n nodes ih =>
      rw [List.filterMap_cons]
      cases entry n with
      | none => exact ih.cons n.uid
      | some b => exact ih.cons_cons n.uid
  have distinctKeys : ∀ k : Graph, k.uids.Nodup →
      (((k.nodes.filterMap fun n => (entry n).map fun b => (n.uid, b)).reverse).map
        Prod.fst).Nodup := by
    intro k distinct
    rw [List.map_reverse, List.nodup_reverse]
    exact distinct.sublist (keys k.nodes)
  have same := reorders.same.filterMap fun n => (entry n).map fun b => (n.uid, b)
  refine Option.ext fun b => ?_
  constructor
  · intro found
    refine lookup_eq_some_of_mem (distinctKeys g distinct) ?_
    rw [List.mem_reverse, ← same.mem_iff, ← List.mem_reverse]
    exact mem_of_lookup_eq_some found
  · intro found
    refine lookup_eq_some_of_mem (distinctKeys h (reorders.distinct distinct)) ?_
    rw [List.mem_reverse, same.mem_iff, ← List.mem_reverse]
    exact mem_of_lookup_eq_some found

end Reorders

end ScriptGraph.Graph

/-! ## Snapshots -/

namespace ScriptGraph

open Relation (TransGen)

variable {c : Catalog} {g h : Graph}

namespace Graph.Reorders

theorem unresolved (reorders : g.Reorders h) (distinct : g.uids.Nodup) :
    h.unresolved = g.unresolved := by
  have names : h.targetName? = g.targetName? := funext (reorders.targetName? distinct)
  rw [Graph.unresolved, names, Graph.unresolved]
  congr 1
  refine reorders.filter_others fun n strays => ?_
  rw [Node.isVariable, decide_eq_false_iff_not]
  intro kind
  rw [Node.access?, kind] at strays
  cases strays

theorem removeUnresolved (reorders : g.Reorders h) (distinct : g.uids.Nodup) :
    g.removeUnresolved.1.Reorders h.removeUnresolved.1 := by
  have left := reorders.filter fun n => n.uid ∉ g.unresolved
  have first := nodes_foldl_remove g.unresolved distinct
  have second := nodes_foldl_remove g.unresolved (reorders.distinct distinct)
  rw [Graph.removeUnresolved, Graph.removeUnresolved, reorders.unresolved distinct]
  constructor
  · rw [first, second]
    exact left.same
  · rw [first, second]
    exact left.others

theorem terminals (reorders : g.Reorders h) (distinct : g.uids.Nodup) (uid : Uid) :
    (h.terminals c).lookup uid = (g.terminals c).lookup uid := by
  have looked := reorders.lookup distinct
    (fun n => (c.find? n.fullName).map fun d => (⟨d.outputs.length, d.hasFlowInput⟩ : Terminal)) uid
  simp only [Option.map_map] at looked
  exact looked

theorem restoreConnections (reorders : g.Reorders h) (distinct : g.uids.Nodup) :
    (g.restoreConnections c).1.Reorders (h.restoreConnections c).1 := by
  have alike : (h.restoreConnections c).1 = h.mapNodes (restoredBy c (g.terminals c)) := by
    have each : (h.restoreConnections c).1 = h.mapNodes (restoredBy c (h.terminals c)) := rfl
    rw [each]
    congr 1
    funext n
    unfold restoredBy
    cases c.find? n.fullName with
    | none => rfl
    | some d =>
      exact Node.restored_congr (fun _ _ => reorders.terminals distinct _)
        fun _ _ => reorders.terminals distinct _
  rw [alike]
  refine reorders.mapNodes fun n => ?_
  split <;> rfl

theorem snapshot (reorders : g.Reorders h) (distinct : g.uids.Nodup)
    (acyclic : ∀ u, ¬TransGen g.Leads u u) :
    (g.snapshot c).1.Reorders (h.snapshot c).1 := by
  have defined := (reorders.filter fun n => n.kind ≠ .comment).filter fun n =>
    (c.find? n.fullName).isSome
  have apart := distinct_removeUndefined c distinct
  have resolved : (g.resolved c).Reorders (h.resolved c) := defined.removeUnresolved apart
  have onward : ∀ u v, h.Leads u v → g.Leads u v := by
    rintro u v ⟨n, listed, here, leads⟩
    exact ⟨n, reorders.mem_iff.mp listed, here, leads⟩
  rw [snapshot_of_acyclic c distinct acyclic, snapshot_of_acyclic c (reorders.distinct distinct)
    fun u cycle => acyclic u (TransGen.mono onward u u cycle)]
  exact resolved.restoreConnections (distinct_resolved distinct)

end Graph.Reorders

end ScriptGraph

/-! ## Lowering -/

namespace ScriptGraph.Graph.Reorders

open Lowering

variable {c : Catalog} {g h : Graph}

theorem placed (reorders : g.Reorders h) (distinct : g.uids.Nodup) :
    Lowering.placed c h = Lowering.placed c g := by
  funext uid
  rw [Lowering.placed, reorders.find? distinct, Lowering.placed]

theorem supply (reorders : g.Reorders h) (distinct : g.uids.Nodup) (depth : Nat) :
    Lowering.supply c h depth = Lowering.supply c g depth := by
  induction depth with
  | zero => rfl
  | succ depth ih =>
    funext visiting evaluated link
    rw [supply_succ, supply_succ, ih, reorders.placed distinct]

theorem feedOf (reorders : g.Reorders h) (distinct : g.uids.Nodup) :
    Lowering.feedOf c h = Lowering.feedOf c g := by
  rw [Lowering.feedOf, Lowering.feedOf, reorders.length_eq, reorders.supply distinct]

theorem watched (reorders : g.Reorders h) : Lowering.watched h = Lowering.watched g := by
  rw [Lowering.watched, Lowering.watched, reorders.filter_others]
  intro n change
  rw [Node.isVariable, of_decide_eq_true change]
  rfl

theorem body (reorders : g.Reorders h) (distinct : g.uids.Nodup) : Lowering.body h = Lowering.body g := by
  funext feed follow n d exit
  have assigns : assignment h feed follow n d exit = assignment g feed follow n d exit := by
    rw [assignment_eq, assignment_eq, reorders.find? distinct]
    simp only [notice, reorders.watched]
  unfold Lowering.body
  rw [assigns]

theorem chain (reorders : g.Reorders h) (distinct : g.uids.Nodup) (depth : Nat) :
    Lowering.chain c h depth = Lowering.chain c g depth := by
  induction depth with
  | zero => rfl
  | succ depth ih =>
    funext uid exit s
    rw [chain_succ, chain_succ]
    simp only [labelledBody, ih, reorders.placed distinct, reorders.feedOf distinct,
      reorders.body distinct]

theorem entries (reorders : g.Reorders h) (distinct : g.uids.Nodup) (taken : List String)
    (nodes : List Node) : Lowering.entries c h taken nodes = Lowering.entries c g taken nodes := by
  have names : Lowering.entryName? h = Lowering.entryName? g := by
    funext n
    rw [entryName?_eq, entryName?_eq, claimedName?, claimedName?, reorders.targetName? distinct]
  induction nodes generalizing taken with
  | nil => rfl
  | cons n nodes ih =>
    rw [Lowering.entries, Lowering.entries, names]
    simp only [ih]

theorem streams (reorders : g.Reorders h) (distinct : g.uids.Nodup) :
    Lowering.streams c h = Lowering.streams c g := by
  have each : Lowering.stream c h = Lowering.stream c g := by
    funext name n
    rw [stream, stream, reorders.length_eq, reorders.chain distinct]
  rw [Lowering.streams, Lowering.streams, reorders.eventNodes, reorders.entries distinct, each]

end ScriptGraph.Graph.Reorders
