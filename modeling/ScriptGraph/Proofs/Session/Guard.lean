import ScriptGraph.Proofs.Session.Acyclic

/-!
The guard of flow connections is exact. It looks for a way back before the flow is written, in a graph
that still has the flow that is replaced; in a graph without cycles this rejects no flow that would
close none.
-/

set_option autoImplicit false
set_option relaxedAutoImplicit false

namespace ScriptGraph

open Relation (TransGen ReflTransGen)

theorem transGen_cut {α : Type} {r : α → α → Prop} {x y : α} (path : TransGen r x y) (apart : x ≠ y) :
    TransGen (fun a b => r a b ∧ a ≠ y) x y := by
  induction path using TransGen.head_induction_on with
  | single last => exact .single ⟨last, apart⟩
  | @head x z first _ ih =>
    by_cases there : z = y
    · exact .single ⟨there ▸ first, apart⟩
    · exact (ih there).head ⟨first, apart⟩

namespace Graph

variable {c : Catalog} {g : Graph} {source target u v : Uid} {port : Nat}

/-- The graph with a flow output led to a target, in place of where it has led. -/
def withFlow (g : Graph) (source : Uid) (port : Nat) (target : Uid) : Graph :=
  g.update source fun n => { n with flows := n.flows.set port (some target) }

/-- A node has a flow output, and another one has a flow input that it can be led to. -/
structure TakesFlow (c : Catalog) (g : Graph) (source : Uid) (port : Nat) (target : Uid) : Prop where
  output : ∃ n d, g.find? source = some n ∧ c.find? n.fullName = some d ∧
    port < Node.flowPorts d n.flows ∧ port < n.flows.length
  input : ∃ m e, g.find? target = some m ∧ c.find? m.fullName = some e ∧ e.hasFlowInput

/-! ## Writing a flow -/

theorem Leads.withFlow (leads : g.Leads u v) (distinct : g.uids.Nodup) (apart : u ≠ source)
    (port : Nat) (target : Uid) : (g.withFlow source port target).Leads u v := by
  obtain ⟨n, hn, rfl, listed⟩ := leads
  have there : (g.withFlow source port target).find? n.uid = some n := by
    rw [Graph.withFlow, find?_update, if_neg apart]
    · exact find?_of_mem distinct hn
    · exact fun _ => rfl
  exact ⟨n, find?_mem there, rfl, listed⟩

theorem withFlow_leads {n : Node} (found : g.find? source = some n) (entry : port < n.flows.length)
    (target : Uid) : (g.withFlow source port target).Leads source target := by
  have there : (g.withFlow source port target).find? source =
      some { n with flows := n.flows.set port (some target) } := by
    rw [withFlow, find?_update, if_pos rfl, found]
    · rfl
    · exact fun _ => rfl
  exact ⟨_, find?_mem there, find?_uid there, List.mem_set entry _⟩

theorem withFlow_cycle_iff {n : Node} (distinct : g.uids.Nodup) (acyclic : ∀ u, ¬TransGen g.Leads u u)
    (found : g.find? source = some n) (entry : port < n.flows.length) :
    (∃ u, TransGen (g.withFlow source port target).Leads u u) ↔
      source = target ∨ TransGen g.Leads target source := by
  have new := withFlow_leads found entry target
  constructor
  · rintro ⟨u, cycle⟩
    rcases transGen_edge (fun _ _ => leads_of_set) cycle with cycle | ⟨first, second⟩
    · exact absurd cycle (acyclic u)
    · exact Relation.reflTransGen_iff_eq_or_transGen.mp (second.trans first)
  · rintro (rfl | back)
    · exact ⟨source, .single new⟩
    · have apart : target ≠ source := fun same => acyclic source (same ▸ back)
      -- The way back may lead through the flow that is replaced, but not before it gets to its start.
      have kept : TransGen (g.withFlow source port target).Leads target source :=
        TransGen.mono (fun _ _ step => step.1.withFlow distinct step.2 port target) _ _
          (transGen_cut back apart)
      exact ⟨source, kept.head new⟩

/-! ## The guard -/

theorem TakesFlow.connectFlow_eq (takes : g.TakesFlow c source port target) :
    g.connectFlow c source port target =
      if source = target ∨ source ∈ g.flowSuccessors target then .error (.recursiveFlow source target)
      else .ok ((g.withFlow source port target).relayout c source) := by
  obtain ⟨⟨n, d, found, defined, inside, entry⟩, m, e, found', defined', input⟩ := takes
  by_cases way : source = target ∨ source ∈ g.flowSuccessors target
  · have refused : (decide (source = target) || (g.flowSuccessors target).contains source) = true := by
      rwa [Bool.or_eq_true, decide_eq_true_eq, List.contains_iff_mem]
    have first : g.placed c source = .ok (n, d) := placed_eq_ok.mpr ⟨found, defined⟩
    have second : g.placed c target = .ok (m, e) := placed_eq_ok.mpr ⟨found', defined'⟩
    rw [connectFlow, first, second, if_pos way]
    exact if_pos refused
  · rw [if_neg way]
    simp only [connectFlow, guard_eq_ok, bind_eq_ok, Prod.exists, placed_eq_ok, pure_eq_ok,
      Bool.or_eq_true, decide_eq_true_eq, List.contains_iff_mem, Bool.not_eq_true',
      Bool.not_eq_false, Nat.not_le]
    exact ⟨n, d, ⟨found, defined⟩, m, e, ⟨found', defined'⟩, way, inside, input, entry, rfl⟩

end Graph

namespace Session

variable {source target : Uid} {port : Nat}

/-- Following flows finds the ends of all flow paths and nothing else, whether there are cycles or not.
In a graph without cycles, connecting a flow is refused exactly if the graph with that flow, in place of
the one it replaces, has a cycle; otherwise it is connected, and the other nodes are as before. -/
theorem connectFlow_exact {s : Session} (distinct : s.graph.uids.Nodup) (edits : s.repairing = false) :
    (∀ u v, v ∈ s.graph.flowSuccessors u ↔ TransGen s.graph.Leads u v) ∧
    ((∀ u, ¬TransGen s.graph.Leads u u) → s.graph.TakesFlow s.catalog source port target →
      ((s.connectFlow source port target).1 = .error (.recursiveFlow source target) ↔
        ∃ u, TransGen (s.graph.withFlow source port target).Leads u u) ∧
      ((¬∃ u, TransGen (s.graph.withFlow source port target).Leads u u) →
        s.connectFlow source port target =
          (.ok (), s.touched ((s.graph.withFlow source port target).relayout s.catalog source)) ∧
        ∀ uid, uid ≠ source →
          (s.connectFlow source port target).2.graph.find? uid = s.graph.find? uid)) := by
  refine ⟨fun u v => Graph.mem_flowSuccessors distinct, fun acyclic takes => ?_⟩
  have way : source = target ∨ source ∈ s.graph.flowSuccessors target ↔
      ∃ u, TransGen (s.graph.withFlow source port target).Leads u u := by
    obtain ⟨n, _, found, -, -, entry⟩ := takes.output
    rw [Graph.mem_flowSuccessors distinct, Graph.withFlow_cycle_iff distinct acyclic found entry]
  have outcome : s.connectFlow source port target =
      if source = target ∨ source ∈ s.graph.flowSuccessors target then
        (.error (.recursiveFlow source target), s)
      else (.ok (), s.touched ((s.graph.withFlow source port target).relayout s.catalog source)) := by
    unfold connectFlow adopt editing
    rw [takes.connectFlow_eq, edits, if_neg Bool.false_ne_true]
    by_cases found : source = target ∨ source ∈ s.graph.flowSuccessors target
    · rw [if_pos found, if_pos found]
    · rw [if_neg found, if_neg found]
  refine ⟨?_, fun straight => ?_⟩
  · rw [outcome, ← way]
    split
    · rename_i found
      exact iff_of_true rfl found
    · rename_i straight
      exact iff_of_false nofun straight
  · rw [if_neg fun found => straight (way.mp found)] at outcome
    refine ⟨outcome, fun uid other => ?_⟩
    rw [outcome]
    change (((s.graph.withFlow source port target).relayout s.catalog source).find? uid) = _
    rw [Graph.relayout_eq, Graph.find?_update fun n => (Graph.relaid_fewer _ n).uid, if_neg other,
      Graph.withFlow, Graph.find?_update, if_neg other]
    exact fun _ => rfl

def inRow : Session := { create (Catalog.empty.extend Catalog.controls).1 .default .strokes with
  graph := { Graph.empty "row" with
    nodes := [
      ⟨"a", "Block", .origin, [], [], [some "b", none]⟩,
      ⟨"b", "Block", .origin, [], [], [some "c", none]⟩,
      ⟨"c", "Block", .origin, [], [], [none, none]⟩] } }

/-- The last may not lead to the first, but the first may lead to the last in place of the second. -/
theorem connectFlow_exact_inRow :
    (inRow.connectFlow "c" 0 "a").1 = .error (.recursiveFlow "c" "a") ∧
      (inRow.connectFlow "a" 0 "c").1 = .ok () ∧
      (inRow.connectFlow "a" 0 "c").2.graph.find? "b" = inRow.graph.find? "b" := by
  have distinct : inRow.graph.uids.Nodup := by decide
  have acyclic : ∀ u, ¬TransGen inRow.graph.Leads u u := by
    refine (Graph.acyclic_iff distinct).mp ?_
    unfold Graph.Acyclic
    decide +kernel
  have closing : inRow.graph.TakesFlow inRow.catalog "c" 0 "a" :=
    ⟨⟨_, _, rfl, rfl, by decide +kernel, by decide⟩, _, _, rfl, rfl, by decide +kernel⟩
  have skipping : inRow.graph.TakesFlow inRow.catalog "a" 0 "c" :=
    ⟨⟨_, _, rfl, rfl, by decide +kernel, by decide⟩, _, _, rfl, rfl, by decide +kernel⟩
  have straight : ¬∃ u, TransGen (inRow.graph.withFlow "a" 0 "c").Leads u u := by
    refine not_exists.mpr ((Graph.acyclic_iff (by decide)).mp ?_)
    unfold Graph.Acyclic
    decide +kernel
  obtain ⟨connected, others⟩ := ((connectFlow_exact distinct rfl).2 acyclic skipping).2 straight
  refine ⟨((connectFlow_exact distinct rfl).2 acyclic closing).1.mpr ?_, by rw [connected],
    others "b" (by decide)⟩
  have back : TransGen inRow.graph.Leads "a" "c" :=
    (Graph.mem_flowSuccessors distinct).mp (by decide +kernel)
  exact (Graph.withFlow_cycle_iff distinct acyclic rfl (by decide)).mpr (Or.inr back)

end Session

end ScriptGraph
