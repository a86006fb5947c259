import ScriptGraph.Proofs.Compilation.Program
import ScriptGraph.Proofs.Snapshot.Compilable
import ScriptGraph.Proofs.Snapshot.Cycles
import ScriptGraph.Proofs.Snapshot.Untouched

/-!
Snapshots of snapshots. A snapshot has nothing left to repair, so taking one of it only moves the
targets of blocks together, which compiling does not see.
-/

set_option autoImplicit false
set_option relaxedAutoImplicit false

namespace ScriptGraph

open Relation (TransGen)

theorem Node.view_compacted : View Node.compacted := by
  refine ⟨fun n => ?_, targets_compacted, fun n other => ?_⟩
  · rw [compacted]
    split <;> rfl
  · rw [compacted_other other]

namespace Graph

variable {c : Catalog} {g : Graph} {n : Node}

theorem leads_of_compacted {u v : Uid} (leads : g.compacted.Leads u v) : g.Leads u v := by
  obtain ⟨m, hm, rfl, listed⟩ := leads
  obtain ⟨n, hn, rfl⟩ := List.mem_map.mp hm
  refine ⟨n, hn, (Node.view_compacted.same Node.uid (fun _ => rfl) n).symm, ?_⟩
  have target : v ∈ n.compacted.targets := List.mem_filterMap.mpr ⟨some v, listed, rfl⟩
  rw [Node.view_compacted.targets] at target
  obtain ⟨flow, there, same⟩ := List.mem_filterMap.mp target
  obtain rfl : flow = some v := same
  exact there

theorem Bound.removeUnresolved_eq (bound : g.Bound) : g.removeUnresolved = (g, []) := by
  have none : g.unresolved = [] := by
    rw [unresolved, List.map_eq_nil_iff, List.filter_eq_nil_iff]
    intro n listed missing
    rw [Bool.and_eq_true] at missing
    obtain ⟨name, found⟩ := bound n listed missing.1
    rw [found] at missing
    cases missing.2
  rw [removeUnresolved, none]
  rfl

/-! ## What a snapshot leaves to the next one -/

theorem sized_snapshot (c : Catalog) (distinct : g.uids.Nodup)
    (listed : n ∈ (g.snapshot c).1.nodes) : ∃ d, c.find? n.fullName = some d ∧ n.Sized d := by
  have resolved := resolved_removeUndefined (c := c) distinct
  have connected := connected_restoreConnections resolved.distinct resolved.defined
  have cleared := clearFlows_eq connected.distinct
    ((g.removeComments.removeUndefined c).1.removeUnresolved.1.restoreConnections c).1.closingFlows
  change (g.snapshot c).1 = _ at cleared
  rw [cleared] at listed
  obtain ⟨k, hk, rfl⟩ := List.mem_map.mp listed
  obtain ⟨m, hm, d, found, rfl⟩ := mem_restoreConnections resolved.defined hk
  have sized := (Node.restored_conforms
    ((g.removeComments.removeUndefined c).1.removeUnresolved.1.terminals c) d m).sized
  refine ⟨d, found, sized.links, sized.values, fun other => ?_⟩
  rw [Node.withoutFlows, List.length_mapIdx]
  exact sized.flows other

theorem snapshot_intact (c : Catalog) (distinct : g.uids.Nodup) : (g.snapshot c).1.Intact c := by
  have live := snapshot_live c distinct
  refine { snapshot_valid c distinct with
    distinct := live.distinct
    sized := fun n listed => sized_snapshot c distinct listed
    uncommented := fun n listed => (registered_snapshot c distinct listed).1
    onward := fun u v leads same => ?_ }
  subst same
  exact live.acyclic_leads v (.single leads)

theorem snapshot_snapshot (extension : c.Extends) (texts : c.NamesByText) (distinct : g.uids.Nodup) :
    (g.snapshot c).1.snapshot c = ((g.snapshot c).1.compacted, []) := by
  have repaired := snapshot_repaired extension texts distinct
  have intact := snapshot_intact c distinct
  have acyclic : ∀ u, ¬TransGen (g.snapshot c).1.compacted.Leads u u := fun u cycle =>
    repaired.toLive.acyclic_leads u (TransGen.mono (fun _ _ => leads_of_compacted) u u cycle)
  generalize (g.snapshot c).1 = h at repaired intact acyclic
  simp only [snapshot, intact.removeComments_eq, intact.removeUndefined_eq,
    repaired.bound.removeUnresolved_eq, intact.restoreConnections_eq,
    breakFlowCycles_of_acyclic acyclic, List.append_nil]

/-- A snapshot takes no repairs, and compiling it gives the program of the graph; what is reported is
what compiling the graph reports after the repairs. A graph that passes a strict check does so too. -/
theorem compile_snapshot (extension : c.Extends) (texts : c.NamesByText) (distinct : g.uids.Nodup) :
    ((g.snapshot c).1.snapshot c).2 = [] ∧
    ∃ program found,
      g.compile c false = .ok ⟨program, (g.snapshot c).2 ++ found⟩ ∧
      (g.snapshot c).1.compile c false = .ok ⟨program, found⟩ ∧
      ∀ result, g.compile c true = .ok result →
        result = ⟨program, (g.snapshot c).2 ++ found⟩ ∧
          (g.snapshot c).1.compile c true = .ok ⟨program, found⟩ := by
  have settled := snapshot_snapshot extension texts distinct
  have again : ∀ strict, (g.snapshot c).1.compile c strict =
      Compilation.ofSnapshot c strict (g.snapshot c).1 [] := by
    intro strict
    rw [compile, settled]
    exact Compilation.ofSnapshot_view Node.view_compacted strict _ _
  obtain ⟨program, found, compiles⟩ := Compilation.exists_ofSnapshot extension
    (snapshot_repaired extension texts distinct)
  have first := fun strict => compiles strict (g.snapshot c).2
  change ∀ strict, g.compile c strict = _ at first
  refine ⟨congrArg Prod.snd settled, program, found, ?_, ?_, fun result strict => ?_⟩
  · rw [first, Compilation.checked_lenient]
    rfl
  · rw [again, compiles, Compilation.checked_lenient]
    rfl
  · rw [first] at strict
    cases passes : Compilation.checked true ((g.snapshot c).2 ++ found) with
    | error error =>
      rw [passes] at strict
      cases strict
    | ok _ =>
      rw [passes] at strict
      have clean : ∀ d ∈ found, d.isError = false := fun d listed =>
        Compilation.no_error_of_checked passes d (List.mem_append_right _ listed)
      refine ⟨(Except.ok.inj strict).symm, ?_⟩
      rw [again, compiles, List.nil_append, Compilation.checked_of_no_error clean]
      rfl

theorem compile_snapshot_worn :
    ((worn.snapshot Catalog.intrinsic).1.snapshot Catalog.intrinsic).2 = [] ∧
    ∃ program found,
      worn.compile Catalog.intrinsic false =
        .ok ⟨program, (worn.snapshot Catalog.intrinsic).2 ++ found⟩ ∧
      (worn.snapshot Catalog.intrinsic).1.compile Catalog.intrinsic false = .ok ⟨program, found⟩ ∧
      ∀ result, worn.compile Catalog.intrinsic true = .ok result →
        result = ⟨program, (worn.snapshot Catalog.intrinsic).2 ++ found⟩ ∧
          (worn.snapshot Catalog.intrinsic).1.compile Catalog.intrinsic true = .ok ⟨program, found⟩ :=
  compile_snapshot Catalog.intrinsic_extends Catalog.intrinsic_namesByText (by decide)

end Graph

end ScriptGraph
