import ScriptGraph.Proofs.Lowering.Mirrored
import ScriptGraph.Proofs.Snapshot.Nodes

/-!
Snapshots of graphs without some of their dead nodes. Repairs look at the nodes that a node is connected
to and at variables, so what events reach is repaired alike, whether other nodes are there or not.
-/

set_option autoImplicit false
set_option relaxedAutoImplicit false

namespace ScriptGraph

open Relation (TransGen)

variable {c : Catalog} {g : Graph} {keep : Node → Bool}

namespace Graph

theorem restoredBy_fullName (c : Catalog) (terminals : List (Uid × Terminal)) (n : Node) :
    (restoredBy c terminals n).fullName = n.fullName := by
  unfold restoredBy
  split <;> rfl

theorem restoredBy_unlinked (terminals others : List (Uid × Terminal)) (n : Node) :
    (restoredBy c terminals n).unlinked = (restoredBy c others n).unlinked := by
  unfold restoredBy
  split <;> rfl

theorem eventNodes_restoredBy (terminals : List (Uid × Terminal)) (g : Graph) :
    (g.mapNodes (restoredBy c terminals)).eventNodes = g.eventNodes.map (restoredBy c terminals) := by
  have same : ∀ n : Node, (restoredBy c terminals n).isEvent = n.isEvent := fun n =>
    congrArg (fun name => (Kind.ofName name).isEvent) (restoredBy_fullName c terminals n)
  rw [eventNodes, mapNodes, List.filter_map, eventNodes]
  exact congrArg _ (List.filter_congr fun n _ => same n)

theorem variableNodes_restoredBy (terminals others : List (Uid × Terminal)) (g : Graph) :
    (g.mapNodes (restoredBy c terminals)).variableNodes.map Node.unlinked =
      (g.mapNodes (restoredBy c others)).variableNodes.map Node.unlinked := by
  have unlinked : ∀ k : Graph,
      k.variableNodes.map Node.unlinked = (k.mapNodes Node.unlinked).variableNodes := by
    intro k
    simp only [variableNodes, mapNodes, List.filter_map, List.map_append]
    rfl
  have same : (g.mapNodes (restoredBy c terminals)).mapNodes Node.unlinked =
      (g.mapNodes (restoredBy c others)).mapNodes Node.unlinked := by
    simp only [mapNodes, List.map_map]
    congr 1
    exact List.map_congr_left fun n _ => restoredBy_unlinked terminals others n
  rw [unlinked, unlinked, same]

theorem outputTypesOf_restoredBy (terminals : List (Uid × Terminal)) (g : Graph) :
    HeapLayout.outputTypesOf c (g.mapNodes (restoredBy c terminals)) = HeapLayout.outputTypesOf c g := by
  rw [HeapLayout.outputTypesOf, mapNodes, List.filterMap_map, HeapLayout.outputTypesOf]
  simp only [Function.comp_def, restoredBy_uid, restoredBy_fullName]

theorem mem_eventNodes_resolved (distinct : g.uids.Nodup) {n : Node}
    (event : n ∈ (g.resolved c).eventNodes) : n ∈ g.eventNodes :=
  List.mem_filter.mpr
    ⟨mem_of_mem_resolved distinct (List.mem_filter.mp event).1, (List.mem_filter.mp event).2⟩

theorem entries_keeping {β : Type} {kept : Uid → Bool} {nodes : List Node} (entry : Definition → β)
    (same : ∀ n ∈ nodes, kept n.uid = keep n) :
    ((nodes.filter keep).filterMap fun n =>
        (c.find? n.fullName).map fun d => (n.uid, entry d)).reverse =
      ((nodes.filterMap fun n => (c.find? n.fullName).map fun d => (n.uid, entry d)).reverse).filter
        fun entry => kept entry.1 := by
  rw [List.filter_reverse]
  congr 1
  induction nodes with
  | nil => rfl
  | cons n nodes ih =>
    rw [List.forall_mem_cons] at same
    rw [List.filter_cons, List.filterMap_cons]
    cases defined : c.find? n.fullName with
    | none =>
      cases keep n
      · exact ih same.2
      · rw [if_pos rfl, List.filterMap_cons, defined]
        exact ih same.2
    | some d =>
      simp only [Option.map_some]
      rw [List.filter_cons, same.1]
      cases keep n
      · exact ih same.2
      · rw [if_pos rfl, if_pos rfl, List.filterMap_cons, defined, ← ih same.2]
        rfl

theorem targetName?_keeping (distinct : g.uids.Nodup) (declared : ∀ n ∈ g.nodes, n.isVariable → keep n)
    (n : Node) : (g.keeping keep).targetName? n = g.targetName? n := by
  rw [targetName?, targetName?]
  congr 1
  funext uid
  rw [find?_keeping distinct]
  cases found : g.find? uid with
  | none => rfl
  | some v =>
    rw [Option.filter_some]
    split
    · rfl
    · -- What is left out declares no variable, so it has no name to give.
      rename_i left
      rw [Option.bind_none, Option.bind_some, Node.variableName?, if_neg]
      exact fun declares => left (declared v (find?_mem found) declares)

theorem kept_resolved (distinct : g.uids.Nodup) :
    ∀ n ∈ (g.resolved c).nodes, g.kept keep n.uid = keep n :=
  fun _ left => kept_uid distinct (mem_of_mem_resolved distinct left)

namespace Spares

variable (spares : g.Spares keep) (distinct : g.uids.Nodup)
include spares distinct

theorem resolved_keeping : (g.keeping keep).resolved c = (g.resolved c).keeping keep := by
  have apart := distinct_removeUndefined c distinct
  have defined : ((g.keeping keep).removeComments.removeUndefined c).1 =
      (g.removeComments.removeUndefined c).1.keeping keep := by
    simp only [keeping, removeComments, removeUndefined, List.filter_filter]
    congr 1
    refine List.filter_congr fun n _ => ?_
    rw [Bool.and_comm (keep n), Bool.and_assoc]
  rw [resolved, defined, removeUnresolved_eq (distinct_keeping apart keep), keeping_keeping, resolved,
    removeUnresolved_eq apart, keeping_keeping]
  congr 1
  funext n
  rw [targetName?_keeping apart, Bool.and_comm]
  intro v listed declares
  exact spares.keep_of_variable (List.mem_filter.mp (List.mem_filter.mp listed).1).1 declares

theorem restoredBy_keeping {n : Node} (left : n ∈ (g.resolved c).nodes) (reached : g.Reached n.uid) :
    restoredBy c (((g.resolved c).keeping keep).terminals c) n =
      restoredBy c ((g.resolved c).terminals c) n := by
  have listed := mem_of_mem_resolved distinct left
  have terminal : ∀ uid, g.Reached uid → (((g.resolved c).keeping keep).terminals c).lookup uid =
      ((g.resolved c).terminals c).lookup uid := by
    intro uid reached
    have entries : ((g.resolved c).keeping keep).terminals c =
        ((g.resolved c).terminals c).filter fun entry => g.kept keep entry.1 :=
      entries_keeping _ (kept_resolved distinct)
    rw [entries, lookup_filter, if_pos (spares.kept_of_reached reached)]
  unfold restoredBy
  cases c.find? n.fullName with
  | none => rfl
  | some d =>
    exact Node.restored_congr (fun link linked => terminal _ (reached.of_link listed linked))
      fun target leads => terminal _ (reached.of_flow listed leads)

variable (acyclic : ∀ u, ¬TransGen g.Leads u u)
include acyclic

theorem snapshot_keeping : ((g.keeping keep).snapshot c).1 = ((g.resolved c).keeping keep).mapNodes
    (restoredBy c (((g.resolved c).keeping keep).terminals c)) := by
  have fewer := (fewer_of_sublist (keeping_sublist keep g)).flows
  rw [snapshot_of_acyclic c (distinct_keeping distinct keep) fun u cycle =>
    acyclic u (TransGen.mono fewer u u cycle), spares.resolved_keeping distinct]

theorem find?_snapshot_keeping (uid : Uid) : ((g.keeping keep).snapshot c).1.find? uid =
    (((g.resolved c).find? uid).filter keep).map
      (restoredBy c (((g.resolved c).keeping keep).terminals c)) := by
  rw [spares.snapshot_keeping distinct acyclic, find?_mapNodes (restoredBy_uid c _),
    find?_keeping (distinct_resolved distinct)]

theorem bound_snapshot_keeping (extension : c.Extends) {m : Node} {uid : Uid}
    (listed : m ∈ (g.snapshot c).1.nodes) (bound : m.target? = some uid) :
    (((g.keeping keep).snapshot c).1.find? uid).map Node.unlinked =
      ((g.snapshot c).1.find? uid).map Node.unlinked := by
  obtain ⟨n, left, d, defined, same⟩ := mem_snapshot distinct listed
  rw [same.target? extension defined] at bound
  have access : n.access?.isSome := by
    rw [Node.target?] at bound
    split at bound
    · assumption
    · cases bound
  obtain ⟨uid, v, -, target, found, kind, -⟩ :=
    (resolved_removeUndefined distinct).bound.exists_declaration left access
  obtain rfl := Option.some.inj (bound.symm.trans target)
  have kept := spares.keep_of_variable (mem_of_mem_resolved distinct (find?_mem found))
    (decide_eq_true kind)
  change (g.resolved c).find? _ = _ at found
  rw [spares.find?_snapshot_keeping distinct acyclic, snapshot_of_acyclic c distinct acyclic,
    find?_mapNodes (restoredBy_uid c _), found, Option.filter_some, if_pos kept]
  exact congrArg some (restoredBy_unlinked _ _ v)

theorem eventNodes_snapshot_keeping :
    ((g.keeping keep).snapshot c).1.eventNodes = (g.snapshot c).1.eventNodes := by
  have kept : ((g.resolved c).keeping keep).eventNodes = (g.resolved c).eventNodes := by
    rw [eventNodes, keeping, List.filter_comm]
    exact List.filter_eq_self.mpr fun n event => spares.keep_of_event (mem_eventNodes_resolved distinct event)
  rw [spares.snapshot_keeping distinct acyclic, snapshot_of_acyclic c distinct acyclic,
    eventNodes_restoredBy, eventNodes_restoredBy, kept]
  exact List.map_congr_left fun n event =>
    spares.restoredBy_keeping distinct (List.mem_filter.mp event).1
      (reached_of_event (mem_eventNodes_resolved distinct event))

theorem variableNodes_snapshot_keeping :
    ((g.keeping keep).snapshot c).1.variableNodes.map Node.unlinked =
      (g.snapshot c).1.variableNodes.map Node.unlinked := by
  let repair := restoredBy c (((g.resolved c).keeping keep).terminals c)
  have named : (((g.resolved c).keeping keep).mapNodes repair).nodes.filter
      (fun n => n.variableName?.isSome) =
        ((g.resolved c).mapNodes repair).nodes.filter fun n => n.variableName?.isSome := by
    rw [mapNodes, mapNodes, keeping, List.filter_map, List.filter_map, List.filter_comm]
    refine congrArg _ (List.filter_eq_self.mpr fun n named => ?_)
    obtain ⟨left, named⟩ := List.mem_filter.mp named
    obtain ⟨name, named⟩ := Option.isSome_iff_exists.mp named
    have kind : n.kind = .variable :=
      (congrArg Kind.ofName (restoredBy_fullName c _ n)).symm.trans (kind_of_variableName? named)
    exact spares.keep_of_variable (mem_of_mem_resolved distinct left) (decide_eq_true kind)
  have same : (((g.resolved c).keeping keep).mapNodes repair).variableNodes =
      ((g.resolved c).mapNodes repair).variableNodes := by
    rw [variableNodes, variableNodes, named]
  rw [spares.snapshot_keeping distinct acyclic, snapshot_of_acyclic c distinct acyclic, same]
  exact variableNodes_restoredBy _ _ _

theorem outputTypesOf_snapshot_keeping : HeapLayout.outputTypesOf c ((g.keeping keep).snapshot c).1 =
    (HeapLayout.outputTypesOf c (g.snapshot c).1).filter fun entry => g.kept keep entry.1 := by
  rw [spares.snapshot_keeping distinct acyclic, snapshot_of_acyclic c distinct acyclic,
    outputTypesOf_restoredBy, outputTypesOf_restoredBy]
  exact entries_keeping _ (kept_resolved distinct)

theorem alike_snapshot (extension : c.Extends) :
    Lowering.Alike g.Reached (g.snapshot c).1 ((g.keeping keep).snapshot c).1 := by
  have whole := snapshot_of_acyclic c distinct acyclic
  constructor
  case find? =>
    intro uid reached
    rw [spares.find?_snapshot_keeping distinct acyclic, whole, find?_mapNodes (restoredBy_uid c _)]
    cases found : (g.resolved c).find? uid with
    | none => rfl
    | some n =>
      have left := find?_mem found
      have here : g.Reached n.uid := find?_uid found ▸ reached
      rw [Option.filter_some, if_pos, Option.map_some, Option.map_some,
        spares.restoredBy_keeping distinct left here]
      exact spares.keep_of_reached (mem_of_mem_resolved distinct left) here
  case links =>
    intro m listed reached link linked
    rw [whole] at listed
    obtain ⟨n, left, rfl⟩ := List.mem_map.mp listed
    obtain ⟨d, defined⟩ := (resolved_removeUndefined distinct).defined n left
    rw [restoredBy_eq defined] at linked
    rw [restoredBy_uid] at reached
    obtain ⟨old, there, target⟩ := Node.mem_links_restored linked
    rw [← target]
    exact reached.of_link (mem_of_mem_resolved distinct left) there
  case flows =>
    intro m listed reached target leads
    rw [whole] at listed
    obtain ⟨n, left, rfl⟩ := List.mem_map.mp listed
    obtain ⟨d, defined⟩ := (resolved_removeUndefined distinct).defined n left
    rw [restoredBy_eq defined] at leads
    rw [restoredBy_uid] at reached
    exact reached.of_flow (mem_of_mem_resolved distinct left) (Node.mem_flows_restored leads)
  case bound =>
    exact fun m listed _ uid bound =>
      spares.bound_snapshot_keeping distinct acyclic extension listed bound
  case eventNodes => exact spares.eventNodes_snapshot_keeping distinct acyclic
  case events =>
    intro m shown
    rw [whole, eventNodes_restoredBy] at shown
    obtain ⟨n, event, rfl⟩ := List.mem_map.mp shown
    rw [restoredBy_uid]
    exact reached_of_event (mem_eventNodes_resolved distinct event)

end Spares

end Graph

end ScriptGraph
