import ScriptGraph.Proofs.Compilation.Closed
import ScriptGraph.Proofs.Lowering.Total

/-!
Compiling never fails on a graph with distinct uids, unless it is strict and the graph has errors.
-/

set_option autoImplicit false
set_option relaxedAutoImplicit false

namespace ScriptGraph

namespace Compilation

theorem checked_lenient (diagnostics : List Diagnostic) : checked false diagnostics = .ok () := by
  unfold checked
  split <;> rfl

theorem checked_of_no_error {strict : Bool} {diagnostics : List Diagnostic}
    (clean : ∀ d ∈ diagnostics, d.isError = false) : checked strict diagnostics = .ok () := by
  have hnone : diagnostics.filter Diagnostic.isError = [] := by
    rw [List.filter_eq_nil_iff]
    intro d hd
    rw [clean d hd]
    exact Bool.false_ne_true
  rw [checked, hnone]

theorem no_error_of_checked {diagnostics : List Diagnostic}
    (passes : checked true diagnostics = .ok ()) : ∀ d ∈ diagnostics, d.isError = false := by
  intro d listed
  unfold checked at passes
  split at passes
  · rename_i clean
    exact Bool.eq_false_iff.mpr (List.filter_eq_nil_iff.mp clean d listed)
  · cases passes

theorem checked_of_error {diagnostics : List Diagnostic} {first : Diagnostic}
    (found : diagnostics.find? Diagnostic.isError = some first) :
    checked true diagnostics = .error (.rejected
      ⟨diagnostics.countP Diagnostic.isError, first.text, diagnostics⟩) := by
  rw [← List.head?_filter] at found
  rw [checked, List.countP_eq_length_filter]
  cases errors : diagnostics.filter Diagnostic.isError with
  | nil => simp [errors] at found
  | cons error rest =>
    rw [errors] at found
    obtain rfl := Option.some.inj found
    rfl

theorem ofSnapshot_of_error {c : Catalog} {snapshot : Graph} {diagnostics : List Diagnostic}
    {error : CompileError} (failed : lower c snapshot diagnostics = .error error) (strict : Bool) :
    ofSnapshot c strict snapshot diagnostics = .error error := by
  unfold ofSnapshot
  rw [failed]
  rfl

theorem ofSnapshot_of_lower {c : Catalog} {snapshot : Graph} {diagnostics : List Diagnostic}
    {streams : List Stream} {lowering : Lowering}
    (lowered : lower c snapshot diagnostics = .ok (streams, lowering)) (strict : Bool) :
    ofSnapshot c strict snapshot diagnostics =
      (checked strict lowering.diagnostics).map fun _ =>
        ⟨⟨snapshot.name, snapshot.updateOrder, Assembly.entries 0 streams,
          Assembly.encoded (Assembly.addressOf (Assembly.allOps streams))
            (Assembly.allOps streams), lowering.heap.symbols.toList⟩, lowering.diagnostics⟩ := by
  unfold ofSnapshot
  rw [lowered]
  simp only [bind, Except.bind, assemble_of_lower lowered]
  cases checked strict lowering.diagnostics <;> rfl

theorem exists_lower {c : Catalog} {snapshot : Graph} (extension : c.Extends)
    (repaired : snapshot.Repaired c) (diagnostics : List Diagnostic) :
    ∃ streams lowering, lower c snapshot diagnostics = .ok (streams, lowering) := by
  -- for any layout, as the one to begin with is better not opened
  have succeeds : ∀ layout, HeapLayout.Grows (.ofGraph c snapshot) layout →
      ∃ streams lowering, Lowering.streams c snapshot ⟨layout, diagnostics, 0, []⟩ =
        .ok (streams, lowering) := by
    intro layout grows
    obtain ⟨streams, lowering, lowered, -⟩ := Lowering.streams_succeeds extension repaired
      ⟨layout, diagnostics, 0, []⟩ grows
    exact ⟨streams, lowering, lowered⟩
  exact succeeds _ (HeapLayout.Grows.refl _)

end Compilation

/-- Compiling leniently succeeds; compiling strictly gives the same, or is refused with all
diagnostics if there are errors among them, with their number and the text of the first. -/
theorem Graph.compile_total {c : Catalog} {g : Graph} (extension : c.Extends)
    (texts : c.NamesByText) (distinct : g.uids.Nodup) :
    ∃ result, g.compile c false = .ok result ∧
      ((∀ d ∈ result.diagnostics, d.isError = false) → g.compile c true = .ok result) ∧
      ∀ first, result.diagnostics.find? Diagnostic.isError = some first →
        g.compile c true = .error (.rejected
          ⟨result.diagnostics.countP Diagnostic.isError, first.text, result.diagnostics⟩) := by
  have repaired := snapshot_repaired extension texts distinct
  obtain ⟨streams, lowering, lowered, -⟩ :=
    Lowering.streams_succeeds extension repaired ⟨.ofGraph c (g.snapshot c).1, (g.snapshot c).2, 0, []⟩
      (HeapLayout.Grows.refl _)
  have compiles := Compilation.ofSnapshot_of_lower lowered
  change ∀ strict, g.compile c strict = _ at compiles
  refine ⟨_, (compiles false).trans (by rw [Compilation.checked_lenient]; rfl), ?_, ?_⟩
  · intro clean
    rw [compiles, Compilation.checked_of_no_error clean]
    rfl
  · intro first found
    rw [compiles, Compilation.checked_of_error found]
    rfl

namespace Compilation

def tangled : Graph := { Graph.empty "tangled" with
  nodes := [
    ⟨"start", "Event_Start", .origin, [], [], [some "loop"]⟩,
    ⟨"loop", Kind.whileName, .origin, [.text "not a condition"], [some ⟨"loop", 3⟩],
      [some "loop", some "nowhere", some "start"]⟩,
    ⟨"unknown", "Unknown", .origin, [], [], []⟩] }

theorem compile_total_tangled : ∃ result, tangled.compile Catalog.intrinsic false = .ok result ∧
    ((∀ d ∈ result.diagnostics, d.isError = false) →
      tangled.compile Catalog.intrinsic true = .ok result) ∧
    ∀ first, result.diagnostics.find? Diagnostic.isError = some first →
      tangled.compile Catalog.intrinsic true = .error (.rejected
        ⟨result.diagnostics.countP Diagnostic.isError, first.text, result.diagnostics⟩) :=
  Graph.compile_total Catalog.intrinsic_extends Catalog.intrinsic_namesByText (by decide)

end Compilation

end ScriptGraph
