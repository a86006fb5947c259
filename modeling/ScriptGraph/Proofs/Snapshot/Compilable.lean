import ScriptGraph.Proofs.Graph.Flow
import ScriptGraph.Proofs.Graph.Valid

/-!
Snapshots satisfy everything that compiling relies on at once. Each pass establishes a part, and the
passes after it keep what it has established.
-/

set_option autoImplicit false
set_option relaxedAutoImplicit false

namespace ScriptGraph.Graph

open Relation (TransGen)

variable {c : Catalog} {g : Graph} {n : Node}

/-- A graph in which compiling meets nothing to object to. -/
structure Compilable (c : Catalog) (g : Graph) : Prop extends g.Valid c where
  distinct : g.uids.Nodup
  /-- There are no comments, and every node has one link entry for each input of its definition. -/
  registered : ∀ n ∈ g.nodes, n.kind ≠ .comment ∧
    ∃ d, c.find? n.fullName = some d ∧ n.links.length = d.inputs.length
  /-- No node leads to itself. -/
  onward : ∀ u v, g.Leads u v → v ≠ u
  /-- Neither does any path of flows come back. -/
  acyclic : ∀ u, ¬TransGen g.Leads u u
  /-- What is bound to a variable is bound to a node that declares one and gives it a name. -/
  bound : ∀ n ∈ g.nodes, n.access?.isSome → ∃ uid m name,
    n.target? = some uid ∧ g.find? uid = some m ∧ m.kind = .variable ∧ m.variableName? = some name

/-! ## Passes -/

theorem Valid.clearFlows (valid : g.Valid c) (flows : List (Uid × Nat)) :
    (g.clearFlows flows).Valid c := by
  induction flows generalizing g with
  | nil => exact valid
  | cons flow flows ih =>
    exact ih (valid.update (fun n => n.clearFlow_fewer flow.2) fun _ => ⟨rfl, rfl⟩)

theorem Live.acyclic_leads (live : g.Live c) (u : Uid) : ¬TransGen g.Leads u u := by
  obtain ⟨rank, -, falls⟩ := live.acyclic
  refine not_transGen_of_falls rank (fun u v leads => ?_) u
  obtain ⟨n, hn, rfl, listed⟩ := leads
  exact falls n hn v listed

theorem kind_of_resolved (distinct : g.uids.Nodup)
    (listed : n ∈ (g.removeComments.removeUndefined c).1.removeUnresolved.1.nodes) :
    n.kind ≠ .comment := by
  have apart := distinct_removeUndefined c distinct
  have defined := ((mem_removeUnresolved apart).mp listed).1
  have uncommented := (List.mem_filter.mp defined).1
  exact of_decide_eq_true (List.mem_filter.mp uncommented).2

/-- A node of a snapshot has the kind of a node that was resolved, and the ports of its definition. -/
theorem registered_snapshot (c : Catalog) (distinct : g.uids.Nodup)
    (listed : n ∈ (g.snapshot c).1.nodes) : n.kind ≠ .comment ∧
      ∃ d, c.find? n.fullName = some d ∧ n.links.length = d.inputs.length := by
  have resolved := resolved_removeUndefined (c := c) distinct
  have connected := connected_restoreConnections resolved.distinct resolved.defined
  obtain ⟨restored, hrestored, same⟩ := mem_breakFlowCycles connected.distinct listed
  obtain ⟨m, hm, d, found, rfl⟩ := mem_restoreConnections resolved.defined hrestored
  have name := eq_of_unflowed same Node.fullName fun _ => rfl
  have links := eq_of_unflowed same Node.links fun _ => rfl
  have kind : m.kind ≠ .comment := kind_of_resolved distinct hm
  constructor
  · rw [Node.kind, name]
    exact kind
  · refine ⟨d, name ▸ found, ?_⟩
    rw [links]
    exact (Node.restored_conforms _ d m).links

theorem snapshot_valid (c : Catalog) (distinct : g.uids.Nodup) : (g.snapshot c).1.Valid c := by
  have resolved := resolved_removeUndefined (c := c) distinct
  exact (valid_restoreConnections resolved.distinct resolved.defined).clearFlows _

/-- Whatever a graph with distinct uids contains, its snapshot can be compiled. -/
theorem snapshot_compilable (extension : c.Extends) (texts : c.NamesByText)
    (distinct : g.uids.Nodup) : (g.snapshot c).1.Compilable c := by
  have repaired := snapshot_repaired extension texts distinct
  have acyclic := repaired.toLive.acyclic_leads
  refine { snapshot_valid c distinct with
    distinct := repaired.distinct
    registered := fun n listed => registered_snapshot c distinct listed
    onward := fun u v leads same => ?_
    acyclic := acyclic
    bound := fun n listed access => repaired.bound.exists_declaration listed access }
  subst same
  exact acyclic v (.single leads)

/-- A variable that is set in a loop of flows, a use of a missing one, and a comment. -/
def worn : Graph := { Graph.empty "worn" with
  nodes := [
    ⟨"note", Kind.commentName, .origin, [.text "remember"], [], []⟩,
    ⟨"count", Kind.variablePrefix ++ int32Type, .origin, [.text "one", .text "count"], [], []⟩,
    ⟨"start", Kind.eventPrefix ++ "Start", .origin, [], [], [some "note", some "set"]⟩,
    ⟨"get", Kind.getVariableName, .origin, [.text "count"], [some ⟨"get", 0⟩], []⟩,
    ⟨"set", Kind.setVariableName, .origin, [.text "count"], [some ⟨"lost", 0⟩, some ⟨"get", 9⟩],
      [some "start", some "again"]⟩,
    ⟨"again", Kind.blockName, .origin, [], [], [none, some "set", some "again"]⟩,
    ⟨"lost", Kind.getVariableName, .origin, [.text "elsewhere"], [], []⟩] }

theorem snapshot_compilable_worn : (worn.snapshot Catalog.intrinsic).1.Compilable Catalog.intrinsic :=
  snapshot_compilable Catalog.intrinsic_extends Catalog.intrinsic_namesByText (by decide)

/-- The flow of the block that closes a cycle is gone, and the link to a missing output is mended. -/
example : ((worn.snapshot Catalog.intrinsic).1.nodes.map fun n => (n.uid, n.links, n.targets)) =
    [("count", List.replicate 5 none, []), ("start", [], ["set"]), ("get", [none], []),
      ("set", [none, some ⟨"get", 0⟩, none], ["again"]), ("again", [], [])] := by
  decide +kernel

end ScriptGraph.Graph
