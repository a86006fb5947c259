import ScriptGraph.Proofs.Compilation.Total
import ScriptGraph.Proofs.Renaming.Streams
import Mathlib.Logic.Equiv.Basic

/-!
Compiling does not depend on the identity of uids: renamed apart, they lead to the same program.
-/

set_option autoImplicit false
set_option relaxedAutoImplicit false

namespace ScriptGraph

namespace Compilation

theorem lower_rename {c : Catalog} {ρ : Uid → Uid} {snapshot : Graph} (extension : c.Extends)
    (live : snapshot.Live c) (injective : ρ.Injective) (empty : ρ "" = "")
    (diagnostics : List Diagnostic) :
    lower c (snapshot.rename ρ) (diagnostics.map (Diagnostic.rename ρ)) =
      renamedOutcome ρ (Prod.map id (Lowering.rename ρ)) (lower c snapshot diagnostics) := by
  have tracks := Lowering.streams_tracks extension live injective empty
    ⟨.ofGraph c snapshot, diagnostics, 0, []⟩
  rw [lower, HeapLayout.ofGraph_rename injective]
  exact tracks

def rename (ρ : Uid → Uid) (result : Compilation) : Compilation :=
  { result with diagnostics := result.diagnostics.map (Diagnostic.rename ρ) }

theorem ofSnapshot_rename {c : Catalog} {ρ : Uid → Uid} {snapshot : Graph} (extension : c.Extends)
    (live : snapshot.Live c) (injective : ρ.Injective) (empty : ρ "" = "")
    (diagnostics : List Diagnostic) :
    ofSnapshot c false (snapshot.rename ρ) (diagnostics.map (Diagnostic.rename ρ)) =
      renamedOutcome ρ (rename ρ) (ofSnapshot c false snapshot diagnostics) := by
  have hlower := lower_rename extension live injective empty diagnostics
  cases lowered : lower c snapshot diagnostics with
  | error error =>
    rw [lowered] at hlower
    rw [ofSnapshot_of_error hlower, ofSnapshot_of_error lowered]
    rfl
  | ok result =>
    obtain ⟨streams, lowering⟩ := result
    rw [lowered] at hlower
    rw [ofSnapshot_of_lower hlower, ofSnapshot_of_lower lowered, checked_lenient, checked_lenient]
    rfl

end Compilation

theorem Graph.compile_rename_eq {c : Catalog} {g : Graph} {ρ : Uid → Uid} (extension : c.Extends)
    (distinct : g.uids.Nodup) (injective : ρ.Injective) (empty : ρ "" = "") :
    (g.rename ρ).compile c false =
      renamedOutcome ρ (Compilation.rename ρ) (g.compile c false) := by
  have live := snapshot_live c distinct
  unfold compile
  rw [rename_snapshot extension distinct injective empty]
  exact Compilation.ofSnapshot_rename extension live injective empty (g.snapshot c).2

/-- A renamed graph compiles to the same program, with the same kinds of diagnostics at the renamed
nodes. Neither of the two compiles if a declaration has lost its name, which takes a catalog that
does not declare names as texts. -/
theorem Graph.compile_rename {c : Catalog} {g : Graph} {ρ : Uid → Uid} (extension : c.Extends)
    (distinct : g.uids.Nodup) (injective : ρ.Injective) (empty : ρ "" = "") :
    (∃ original renamed, g.compile c false = .ok original ∧
      (g.rename ρ).compile c false = .ok renamed ∧ renamed.program = original.program ∧
      renamed.diagnostics.map (fun d => (d.node, d.kind)) =
        original.diagnostics.map fun d => (ρ d.node, d.kind)) ∨
    (¬c.NamesByText ∧ ∃ error renamed, g.compile c false = .error error ∧
      (g.rename ρ).compile c false = .error renamed) := by
  have hrename := compile_rename_eq extension distinct injective empty
  cases compiled : g.compile c false with
  | ok original =>
    rw [compiled] at hrename
    refine Or.inl ⟨original, original.rename ρ, rfl, hrename, rfl, ?_⟩
    rw [Compilation.rename, List.map_map]
    refine List.map_congr_left fun d _ => ?_
    rw [Function.comp_apply, Diagnostic.rename_kind]
    rfl
  | error error =>
    rw [compiled] at hrename
    refine Or.inr ⟨fun texts => ?_, error, error.rename ρ, rfl, hrename⟩
    have repaired := snapshot_repaired extension texts distinct
    obtain ⟨streams, lowering, lowered, -⟩ :=
      Lowering.streams_succeeds extension repaired
        ⟨.ofGraph c (g.snapshot c).1, (g.snapshot c).2, 0, []⟩ (HeapLayout.Grows.refl _)
    have compiles := Compilation.ofSnapshot_of_lower lowered false
    rw [Compilation.checked_lenient] at compiles
    cases compiled.symm.trans compiles

namespace Compilation

/-- A variable that is set to itself, and a node bound to a variable that is missing. -/
def rebound : Graph := { Graph.empty "rebound" with
  nodes := [
    ⟨"start", "Event_Start", .origin, [], [], [some "set"]⟩,
    ⟨"count", "Variable_SystemInt32", .origin, [.int32 0, .text "count"], [], []⟩,
    ⟨"get", Kind.getVariableName, .origin, [.text "count"], [], []⟩,
    ⟨"set", Kind.setVariableName, .origin, [.text "count"], [none, some ⟨"get", 0⟩], [some "start"]⟩,
    ⟨"lost", Kind.getVariableName, .origin, [.text "nowhere"], [], []⟩] }

theorem compile_rename_rebound : ∃ original renamed,
    rebound.compile Catalog.intrinsic false = .ok original ∧
    (rebound.rename (Equiv.swap "set" "count")).compile Catalog.intrinsic false = .ok renamed ∧
    renamed.program = original.program ∧
    renamed.diagnostics.map (fun d => (d.node, d.kind)) =
      original.diagnostics.map fun d => (Equiv.swap "set" "count" d.node, d.kind) :=
  (Graph.compile_rename Catalog.intrinsic_extends (by decide) (Equiv.injective _)
    (by decide)).resolve_right fun failing => failing.1 Catalog.intrinsic_namesByText

end Compilation

end ScriptGraph
