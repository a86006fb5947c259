import ScriptGraph.Proofs.Graph.Flow
import ScriptGraph.Proofs.Snapshot.Loop
import ScriptGraph.Proofs.Snapshot.Repaired

/-!
Breaking cycles of flow is exact. Repairs lead flows nowhere new, and where no path of flows comes back
there is no flow to clear. The loop of the search ends; what it found are flows on cycles, and without
these flows, each of which is reported once, no path of flows comes back.
-/

set_option autoImplicit false
set_option relaxedAutoImplicit false

/-! ## Graphs without cycles -/

namespace ScriptGraph

open Relation (TransGen)

variable {c : Catalog} {g : Graph} {u v : Uid}

namespace Graph

theorem closingFlows_of_acyclic (acyclic : ∀ u, ¬TransGen g.Leads u u) : g.closingFlows = [] := by
  rw [List.eq_nil_iff_forall_not_mem]
  rintro ⟨uid, index⟩ listed
  obtain ⟨target, leads, back⟩ := (Search.Loop.run_sound g).cyclic uid index listed
  exact acyclic uid (TransGen.head' (Search.Loop.leads_of_flow leads) back)

theorem breakFlowCycles_of_acyclic (acyclic : ∀ u, ¬TransGen g.Leads u u) :
    g.breakFlowCycles = (g, []) := by
  rw [breakFlowCycles, closingFlows_of_acyclic acyclic]
  rfl

theorem restoreConnections_leads (leads : (g.restoreConnections c).1.Leads u v) :
    g.Leads u v := by
  obtain ⟨m, hm, here, listed⟩ := leads
  obtain ⟨n, hn, rfl⟩ := List.mem_map.mp hm
  refine ⟨n, hn, ?_, ?_⟩
  · rw [← here]
    split <;> rfl
  · split at listed
    · exact Node.mem_flows_restored listed
    · exact listed

end Graph

end ScriptGraph

/-! ## Graphs with cycles -/

namespace ScriptGraph

open Relation (TransGen ReflTransGen)

namespace Node

/-- A node without those of some flows that are its own. -/
def withoutFlows (flows : List (Uid × Nat)) (n : Node) : Node :=
  { n with flows := n.flows.mapIdx fun index flow => if (n.uid, index) ∈ flows then none else flow }

theorem withoutFlows_nil (n : Node) : n.withoutFlows [] = n := by
  have kept : n.flows.mapIdx (fun _ flow => flow) = n.flows := by
    apply List.ext_getElem?
    intro index
    rw [List.getElem?_mapIdx, Option.map_id']
  simp only [withoutFlows, List.not_mem_nil, if_false, kept]

theorem withoutFlows_cons (n : Node) (flow : Uid × Nat) (flows : List (Uid × Nat)) :
    n.withoutFlows (flow :: flows) =
      (if n.uid = flow.1 then { n with flows := n.flows.set flow.2 none } else n).withoutFlows
        flows := by
  obtain ⟨uid, port⟩ := flow
  by_cases own : n.uid = uid
  · rw [if_pos own]
    simp only [withoutFlows, own]
    congr 1
    apply List.ext_getElem?
    intro index
    rw [List.getElem?_mapIdx, List.getElem?_mapIdx, List.getElem?_set]
    by_cases here : port = index
    · subst here
      by_cases inside : port < n.flows.length
      · simp [inside]
      · simp [inside]
    · have apart : index ≠ port := Ne.symm here
      simp [here, apart]
  · rw [if_neg own]
    simp [withoutFlows, own]

end Node

namespace Graph

variable {g : Graph}

theorem clearFlows_eq (distinct : g.uids.Nodup) (flows : List (Uid × Nat)) :
    g.clearFlows flows = g.mapNodes (Node.withoutFlows flows) := by
  induction flows generalizing g with
  | nil =>
    have same : g.nodes.map (Node.withoutFlows []) = g.nodes :=
      (List.map_congr_left fun n _ => n.withoutFlows_nil).trans (List.map_id _)
    rw [clearFlows, List.foldl_nil, mapNodes, same]
  | cons flow flows ih =>
    let cleared := g.update flow.1 fun n => { n with flows := n.flows.set flow.2 none }
    have apart : cleared.uids.Nodup := by
      rw [uids_update (clearFlow_uid flow.2)]
      exact distinct
    have onward : g.clearFlows (flow :: flows) = cleared.clearFlows flows := rfl
    have nodes : cleared.nodes = g.nodes.map fun n =>
        if n.uid = flow.1 then { n with flows := n.flows.set flow.2 none } else n :=
      nodes_update distinct
    have same : cleared.nodes.map (Node.withoutFlows flows) =
        g.nodes.map (Node.withoutFlows (flow :: flows)) := by
      rw [nodes, List.map_map]
      exact List.map_congr_left fun n _ => (n.withoutFlows_cons flow flows).symm
    rw [onward, ih apart, mapNodes, mapNodes, same]
    rfl

theorem acyclic_breakFlowCycles (distinct : g.uids.Nodup) (u : Uid) :
    ¬TransGen g.breakFlowCycles.1.Leads u u := by
  obtain ⟨number, falls⟩ := Search.exists_numbering g
  have apart : g.breakFlowCycles.1.uids.Nodup := by
    rw [breakFlowCycles, uids_clearFlows]
    exact distinct
  refine not_transGen_of_falls number (fun u v leads => ?_) u
  obtain ⟨n, hn, rfl, listed⟩ := leads
  obtain ⟨index, here⟩ := List.mem_iff_getElem?.mp listed
  obtain ⟨leads, kept⟩ := flow_of_clearFlows ⟨n, find?_of_mem apart hn, here⟩
  exact falls n.uid index v leads kept

/-- What breaking cycles does, in terms of what the loop of the search comes to. -/
structure Broken (g : Graph) (s : Search) : Prop where
  /-- The loop ends. -/
  ends : Search.Loop.Runs g (Search.Loop.start g) ⟨[], [], s⟩
  /-- The flows it found are distinct, and each lies on a cycle. -/
  once : s.closing.Nodup
  cyclic : ∀ uid index, (uid, index) ∈ s.closing →
    ∃ target, g.Flow uid index target ∧ ReflTransGen g.Leads target uid
  /-- Exactly these are cleared, and each of them is reported. -/
  nodes : g.breakFlowCycles.1 = g.mapNodes (Node.withoutFlows s.closing)
  reports : g.breakFlowCycles.2 = s.closing.map fun flow => ⟨flow.1, .recursiveFlow flow.2⟩
  /-- No cycle is left, and where there was none, nothing happens. -/
  acyclic : ∀ u, ¬TransGen g.breakFlowCycles.1.Leads u u
  untouched : (∀ u, ¬TransGen g.Leads u u) → g.breakFlowCycles = (g, [])

/-- In every graph with distinct uids, exactly the flows that the loop finds are cleared. -/
theorem breakFlowCycles_exact (distinct : g.uids.Nodup) : ∃ s, g.Broken s := by
  have sound := Search.Loop.run_sound g
  exact ⟨Search.run g, Search.Loop.start_runs g, sound.once, sound.cyclic,
    clearFlows_eq distinct g.closingFlows, rfl, acyclic_breakFlowCycles distinct,
    breakFlowCycles_of_acyclic⟩

/-- Two blocks that lead to each other and themselves, and one that leads to them and out of the
graph. -/
def knotted : Graph := { Graph.empty "knotted" with
  nodes := [
    ⟨"first", Kind.blockName, .origin, [], [], [some "second", some "second", some "first"]⟩,
    ⟨"second", Kind.blockName, .origin, [], [], [none, some "first"]⟩,
    ⟨"third", Kind.blockName, .origin, [], [], [some "second", some "nowhere", some "third"]⟩] }

theorem breakFlowCycles_exact_knotted : ∃ s, knotted.Broken s :=
  breakFlowCycles_exact (by decide)

/-- Both flows to the second block stay, since only what leads back is cleared. -/
example : knotted.closingFlows = [("second", 1), ("first", 2), ("third", 2)] := by
  decide

end Graph

end ScriptGraph
