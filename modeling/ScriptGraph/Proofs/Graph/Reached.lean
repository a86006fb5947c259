import ScriptGraph.Proofs.Graph.Connections
import Mathlib.Logic.Relation

/-!
What events need of a graph: the nodes at the ends of paths that follow flows, and links to the outputs
that they read. The other nodes are dead, but for variables, which programs keep under their names.
-/

set_option autoImplicit false
set_option relaxedAutoImplicit false

namespace ScriptGraph.Graph

open Relation (ReflTransGen)

variable {g : Graph} {u v uid : Uid} {n m : Node} {link : Link} {keep : Node → Bool}

/-- A node leads to another, or reads one of its outputs. -/
def Uses (g : Graph) (u v : Uid) : Prop := g.Leads u v ∨ ∃ link, g.Linked u link ∧ link.node = v

/-- A path of uses leads from an event to a node. -/
def Reached (g : Graph) (uid : Uid) : Prop := ∃ n ∈ g.eventNodes, ReflTransGen g.Uses n.uid uid

/-- A node that is neither an event nor a variable, and that no path from an event leads to. -/
structure Dead (g : Graph) (n : Node) : Prop where
  event : n.isEvent = false
  declares : n.isVariable = false
  unreached : ¬g.Reached n.uid

theorem reached_of_event (event : n ∈ g.eventNodes) : g.Reached n.uid := ⟨n, event, .refl⟩

theorem Reached.of_uses (reached : g.Reached u) (uses : g.Uses u v) : g.Reached v := by
  obtain ⟨n, event, path⟩ := reached
  exact ⟨n, event, path.tail uses⟩

theorem Reached.of_flow (reached : g.Reached n.uid) (listed : n ∈ g.nodes) (leads : some v ∈ n.flows) :
    g.Reached v :=
  reached.of_uses (.inl ⟨n, listed, rfl, leads⟩)

theorem Reached.of_link (reached : g.Reached n.uid) (listed : n ∈ g.nodes) (linked : some link ∈ n.links) :
    g.Reached link.node :=
  reached.of_uses (.inr ⟨link, ⟨n, listed, rfl, linked⟩, rfl⟩)

theorem Reached.mem {uids : List Uid} (reached : g.Reached uid) (events : ∀ n ∈ g.eventNodes, n.uid ∈ uids)
    (closed : ∀ n ∈ g.nodes, n.uid ∈ uids →
      n.flows.filterMap id ⊆ uids ∧ (n.links.filterMap id).map Link.node ⊆ uids) : uid ∈ uids := by
  obtain ⟨n, event, path⟩ := reached
  induction path with
  | refl => exact events n event
  | tail _ uses inside =>
    rcases uses with ⟨m, listed, rfl, leads⟩ | ⟨link, ⟨m, listed, rfl, linked⟩, rfl⟩
    · exact (closed m listed inside).1 (List.mem_filterMap.mpr ⟨_, leads, rfl⟩)
    · exact (closed m listed inside).2
        (List.mem_map_of_mem (List.mem_filterMap.mpr ⟨_, linked, rfl⟩))

/-! ## Leaving nodes out -/

/-- The graph with some of its nodes only. -/
def keeping (keep : Node → Bool) (g : Graph) : Graph := { g with nodes := g.nodes.filter keep }

theorem keeping_sublist (keep : Node → Bool) (g : Graph) : (g.keeping keep).nodes.Sublist g.nodes :=
  List.filter_sublist

theorem keeping_keeping (keep other : Node → Bool) (g : Graph) :
    (g.keeping keep).keeping other = g.keeping fun n => other n && keep n := by
  rw [keeping, keeping, keeping, List.filter_filter]

theorem distinct_keeping (distinct : g.uids.Nodup) (keep : Node → Bool) : (g.keeping keep).uids.Nodup :=
  distinct.sublist ((keeping_sublist keep g).map Node.uid)

theorem find?_keeping (distinct : g.uids.Nodup) (keep : Node → Bool) (uid : Uid) :
    (g.keeping keep).find? uid = (g.find? uid).filter keep := by
  refine Option.ext fun n => ?_
  rw [find?_eq_some_iff (distinct_keeping distinct keep), Option.filter_eq_some_iff,
    find?_eq_some_iff distinct, keeping, List.mem_filter, and_right_comm]

/-- Only dead nodes are left out. -/
def Spares (g : Graph) (keep : Node → Bool) : Prop := ∀ n ∈ g.nodes, keep n = false → g.Dead n

def kept (keep : Node → Bool) (g : Graph) (uid : Uid) : Bool := (g.find? uid).all keep

theorem kept_uid (distinct : g.uids.Nodup) (listed : n ∈ g.nodes) : g.kept keep n.uid = keep n := by
  rw [kept, find?_of_mem distinct listed, Option.all_some]

namespace Spares

variable (spares : g.Spares keep)
include spares

theorem keep_of_reached (listed : n ∈ g.nodes) (reached : g.Reached n.uid) : keep n :=
  Bool.not_eq_false _ ▸ fun left => (spares n listed left).unreached reached

theorem keep_of_event (event : n ∈ g.eventNodes) : keep n :=
  spares.keep_of_reached (List.mem_filter.mp event).1 (reached_of_event event)

theorem keep_of_variable (listed : n ∈ g.nodes) (declares : n.isVariable) : keep n := by
  refine Bool.not_eq_false _ ▸ fun left => ?_
  have other := (spares n listed left).declares
  rw [declares] at other
  cases other

theorem kept_of_reached (reached : g.Reached uid) : g.kept keep uid := by
  rw [kept, Option.all_eq_true]
  intro n found
  exact spares.keep_of_reached (find?_mem found) (find?_uid found ▸ reached)

end Spares

end ScriptGraph.Graph
