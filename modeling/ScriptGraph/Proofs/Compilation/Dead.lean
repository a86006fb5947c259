import ScriptGraph.Proofs.Compilation.Program
import ScriptGraph.Proofs.Lowering.Mirrored
import ScriptGraph.Proofs.Snapshot.Reached

/-!
Dead nodes. What no event reaches by flows and links has no code, and only variables have slots without
being reached, so a graph without its other dead nodes has the same program.
-/

set_option autoImplicit false
set_option relaxedAutoImplicit false

namespace ScriptGraph

open Relation (TransGen)

namespace Lowering

def restrict (kept : Uid → Bool) (s : Lowering) : Lowering := { s with heap := s.heap.restrict kept }

theorem unseen_restrict {live : Uid → Prop} {kept : Uid → Bool} (keeps : ∀ uid, live uid → kept uid) :
    Unseen live (restrict kept) where
  newLabel _ := rfl
  report _ _ _ := rfl
  constant type value :=
    Mirrors.onHeap (fun _ _ => rfl) fun h => HeapLayout.restrict_constantSlot h type value
  scratch type := Mirrors.onHeap (fun _ _ => rfl) fun h => HeapLayout.restrict_scratchSlot h type
  variableSlot uid s := by
    unfold Lowering.variableSlot
    rw [show (s.restrict kept).heap.findVariable? uid = s.heap.findVariable? uid from rfl]
    cases s.heap.findVariable? uid <;> rfl
  output uid index alive :=
    Mirrors.onHeapOrFail (fun _ _ => rfl) fun _ => HeapLayout.restrict_outputSlot (keeps uid alive) index
  parameter uid index name alive :=
    Mirrors.onHeapOrFail (fun _ _ => rfl) fun _ =>
      HeapLayout.restrict_namedOutputSlot (keeps uid alive) index name
  restarted _ := rfl
  emitted _ := rfl
  nextLabel _ := rfl
  entered _ _ _ := rfl

end Lowering

namespace Graph

variable {c : Catalog} {g : Graph} {keep : Node → Bool}

/-- The snapshots of a graph with and without some of its dead nodes are lowered to the same streams, and
the heap is laid out alike. -/
theorem Spares.lower_snapshot (spares : g.Spares keep) (extension : c.Extends) (distinct : g.uids.Nodup)
    (acyclic : ∀ u, ¬TransGen g.Leads u u) :
    Compilation.lower c ((g.keeping keep).snapshot c).1 [] =
      (Compilation.lower c (g.snapshot c).1 []).map
        (Prod.map id (Lowering.restrict (g.kept keep))) := by
  have fewer : ((g.keeping keep).snapshot c).1.nodes.length ≤ (g.snapshot c).1.nodes.length := by
    rw [spares.snapshot_keeping distinct acyclic, snapshot_of_acyclic c distinct acyclic, mapNodes,
      mapNodes, List.length_map, List.length_map]
    exact (keeping_sublist keep _).length_le
  -- With fewer nodes lowering is given less depth; there is enough of it in both cases.
  have deep := Nat.succ_le_succ fewer
  have live := snapshot_live c (distinct_keeping distinct keep)
  have heap := HeapLayout.ofGraph_restrict (spares.variableNodes_snapshot_keeping distinct acyclic)
    (spares.outputTypesOf_snapshot_keeping (c := c) distinct acyclic)
  rw [Compilation.lower, heap]
  exact Lowering.streams_mirrors (Lowering.unseen_restrict fun _ => spares.kept_of_reached)
    (spares.alike_snapshot distinct acyclic extension) (Lowering.feedOf_eq_supply deep)
    (Lowering.chain_eq_chain live deep) ⟨.ofGraph c (g.snapshot c).1, [], 0, []⟩

theorem program_keeping (extension : c.Extends) (distinct : g.uids.Nodup)
    (acyclic : ∀ u, ¬TransGen g.Leads u u) (spares : g.Spares keep) :
    (g.keeping keep).program c = g.program c := by
  have lowers := spares.lower_snapshot extension distinct acyclic
  have named : ((g.keeping keep).snapshot c).1.name = (g.snapshot c).1.name := by
    rw [spares.snapshot_keeping distinct acyclic, snapshot_of_acyclic c distinct acyclic]
    rfl
  have ordered : ((g.keeping keep).snapshot c).1.updateOrder = (g.snapshot c).1.updateOrder := by
    rw [spares.snapshot_keeping distinct acyclic, snapshot_of_acyclic c distinct acyclic]
    rfl
  rw [program, program, compile, compile]
  dsimp only
  rw [Compilation.program_ofSnapshot, Compilation.program_ofSnapshot c (g.snapshot c).1]
  cases lowered : Compilation.lower c (g.snapshot c).1 [] with
  | error error =>
    rw [lowered] at lowers
    rw [Compilation.ofSnapshot_of_error lowers, Compilation.ofSnapshot_of_error lowered]
  | ok result =>
    obtain ⟨streams, lowering⟩ := result
    rw [lowered] at lowers
    rw [Compilation.ofSnapshot_of_lower lowers, Compilation.ofSnapshot_of_lower lowered,
      Compilation.checked_lenient, Compilation.checked_lenient, named, ordered]
    rfl

/-- Dead nodes do not matter. A graph without cycles of flow keeps its program when nodes are removed that
are neither events nor variables and that no event reaches, be it some of these nodes or all of them. -/
theorem program_remove_dead {uids : List Uid} (extension : c.Extends) (distinct : g.uids.Nodup)
    (acyclic : ∀ u, ¬TransGen g.Leads u u) (dead : ∀ n ∈ g.nodes, n.uid ∈ uids → g.Dead n) :
    (uids.foldl remove g).program c = g.program c := by
  rw [foldl_remove_eq uids distinct]
  refine program_keeping extension distinct acyclic fun n listed left => dead n listed ?_
  rwa [decide_eq_false_iff_not, not_not] at left

/-- A variable that an event sets to itself, with a flow and a value that no event gets to. -/
def cluttered : Graph := { Graph.empty "cluttered" with
  nodes := [
    ⟨"start", "Event_Start", .origin, [], [], [some "set"]⟩,
    ⟨"spare", Kind.getVariableName, .origin, [.text "count"], [], []⟩,
    ⟨"count", "Variable_SystemInt32", .origin, [.int32 0, .text "count"], [some ⟨"spare", 0⟩], []⟩,
    ⟨"lost", Kind.setVariableName, .origin, [.text "count"], [none, some ⟨"spare", 0⟩], [some "set"]⟩,
    ⟨"get", Kind.getVariableName, .origin, [.text "count"], [], []⟩,
    ⟨"set", Kind.setVariableName, .origin, [.text "count"], [none, some ⟨"get", 0⟩], []⟩] }

theorem program_cluttered : ∃ p, cluttered.program Catalog.intrinsic = .ok p ∧
    (["spare", "lost"].foldl remove cluttered).program Catalog.intrinsic = .ok p := by
  have distinct : cluttered.uids.Nodup := by decide
  have acyclic : cluttered.Acyclic := by
    unfold Acyclic
    decide
  have dead : ∀ n ∈ cluttered.nodes, n.uid ∈ ["spare", "lost"] → cluttered.Dead n := by
    intro n listed doomed
    have others : n.isEvent = false ∧ n.isVariable = false ∧ n.uid ∉ ["start", "set", "get"] := by
      revert n
      decide
    refine ⟨others.1, others.2.1, fun reached => others.2.2 (reached.mem ?_ ?_)⟩ <;> decide
  obtain ⟨p, gives⟩ :=
    exists_program Catalog.intrinsic_extends Catalog.intrinsic_namesByText distinct
  exact ⟨p, gives, (program_remove_dead Catalog.intrinsic_extends distinct
    ((acyclic_iff distinct).mp acyclic) dead).trans gives⟩

end Graph

end ScriptGraph
