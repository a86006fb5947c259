import ScriptGraph.Compilation
import ScriptGraph.Proofs.Machine.Confined

/-!
Compiled programs are closed, whatever the graph and the catalog, and so their runs stay inside.
-/

set_option autoImplicit false
set_option relaxedAutoImplicit false

namespace ScriptGraph

namespace Compilation

theorem ofSnapshot_eq_ok {c : Catalog} {strict : Bool} {snapshot : Graph}
    {diagnostics : List Diagnostic} {result : Compilation}
    (compiled : ofSnapshot c strict snapshot diagnostics = .ok result) :
    ∃ streams lowering, lower c snapshot diagnostics = .ok (streams, lowering) ∧
      Assembly.assemble snapshot.name snapshot.updateOrder streams lowering.heap.symbols.toList =
        .ok result.program ∧ result.diagnostics = lowering.diagnostics := by
  unfold ofSnapshot at compiled
  cases hlower : lower c snapshot diagnostics with
  | error error => simp [hlower, bind, Except.bind] at compiled
  | ok lowered =>
    obtain ⟨streams, lowering⟩ := lowered
    refine ⟨streams, lowering, rfl, ?_⟩
    simp only [hlower, bind, Except.bind] at compiled
    cases hchecked : checked strict lowering.diagnostics with
    | error error => simp [hchecked] at compiled
    | ok _ =>
      simp only [hchecked] at compiled
      cases hassemble : Assembly.assemble snapshot.name snapshot.updateOrder streams
          lowering.heap.symbols.toList with
      | error error => simp [hassemble] at compiled
      | ok program =>
        simp only [hassemble] at compiled
        cases compiled
        exact ⟨rfl, rfl⟩

theorem lower_eq_ok {c : Catalog} {snapshot : Graph} {diagnostics : List Diagnostic}
    {streams : List Stream} {lowering : Lowering}
    (lowered : lower c snapshot diagnostics = .ok (streams, lowering)) :
    (streams.map Stream.name).Nodup ∧ (marks (Assembly.allOps streams)).Nodup ∧
      (∀ stream ∈ streams, Lowering.SelfContained stream.ops) ∧
      SlotsBelow lowering.heap.symbols.toList.length (Assembly.allOps streams) := by
  obtain ⟨found, r, enters, -, laid, names, -⟩ :=
    Lowering.streams_eq_ok (HeapLayout.ofGraph_sound c snapshot) lowered
  refine ⟨names ▸ enters.distinct, laid.fresh.1, laid.contained, ?_⟩
  rw [Array.length_toList]
  exact laid.below

theorem lower_grows {c : Catalog} {snapshot : Graph} {diagnostics : List Diagnostic}
    {streams : List Stream} {lowering : Lowering}
    (lowered : lower c snapshot diagnostics = .ok (streams, lowering)) :
    HeapLayout.Grows (.ofGraph c snapshot) lowering.heap := by
  obtain ⟨found, r, -, prepares, laid, -⟩ :=
    Lowering.streams_eq_ok (s := ⟨.ofGraph c snapshot, diagnostics, 0, []⟩)
      (HeapLayout.ofGraph_sound c snapshot) lowered
  exact prepares.grows.trans laid.grows

theorem assemble_of_lower {c : Catalog} {snapshot : Graph} {diagnostics : List Diagnostic}
    {streams : List Stream} {lowering : Lowering}
    (lowered : lower c snapshot diagnostics = .ok (streams, lowering)) :
    Assembly.assemble snapshot.name snapshot.updateOrder streams lowering.heap.symbols.toList =
      .ok ⟨snapshot.name, snapshot.updateOrder, Assembly.entries 0 streams,
        Assembly.encoded (Assembly.addressOf (Assembly.allOps streams))
          (Assembly.allOps streams), lowering.heap.symbols.toList⟩ := by
  obtain ⟨-, distinct, contained, -⟩ := lower_eq_ok lowered
  refine Assembly.assemble_eq distinct ?_ _ _ _
  intro target htarget
  obtain ⟨op, hop, hjumps⟩ := List.mem_filterMap.mp htarget
  obtain ⟨stream, hstream, hmem⟩ := List.mem_flatMap.mp hop
  have hown := (contained stream hstream).closed target (List.mem_filterMap.mpr ⟨op, hmem, hjumps⟩)
  refine hown.imp_right ?_
  rintro ⟨label, hlabel, rfl⟩
  obtain ⟨mark, hmark, hmarked⟩ := List.mem_filterMap.mp hlabel
  refine ⟨label, List.mem_filterMap.mpr ⟨mark, ?_, hmarked⟩, rfl⟩
  exact List.mem_flatMap.mpr ⟨stream, hstream, hmark⟩

end Compilation

theorem Graph.compile_eq_ok {c : Catalog} {strict : Bool} {g : Graph} {k : Compilation}
    (compiles : g.compile c strict = .ok k) : ∃ streams lowering,
      Compilation.lower c (g.snapshot c).1 (g.snapshot c).2 = .ok (streams, lowering) ∧
        k.program.entryPoints = Assembly.entries 0 streams ∧
        k.program.symbols = lowering.heap.symbols.toList ∧ k.diagnostics = lowering.diagnostics := by
  obtain ⟨streams, lowering, lowered, assembled, diagnostics⟩ :=
    Compilation.ofSnapshot_eq_ok compiles
  rw [Compilation.assemble_of_lower lowered, Except.ok.injEq] at assembled
  exact ⟨streams, lowering, lowered, by rw [← assembled], by rw [← assembled], diagnostics⟩

/-- Every compiled program is closed, and its runs stay inside the code of their events. -/
theorem Graph.compile_closed {c : Catalog} {strict : Bool} {g : Graph} {result : Compilation}
    (compiled : g.compile c strict = .ok result) :
    result.program.Closed ∧ result.program.Confines := by
  obtain ⟨streams, lowering, lowered, assembled, -⟩ := Compilation.ofSnapshot_eq_ok compiled
  obtain ⟨names, distinct, contained, below⟩ := Compilation.lower_eq_ok lowered
  rw [Compilation.assemble_of_lower lowered] at assembled
  have closed : result.program.Closed := by
    rw [← Except.ok.inj assembled]
    exact Assembly.closed_of_streams names distinct contained below rfl rfl
  exact ⟨closed, closed.confines⟩

namespace Compilation

def loopCatalog : Catalog := ⟨[
  (Definition.bare "Event_Start").withFlow [""],
  { Definition.bare Kind.whileName with
    inputs := [⟨"condition", some boolType, .bool false⟩] }.withFlow ["Body", "Exit"]]⟩

def endless : Graph := { Graph.empty "endless" with
  nodes := [
    ⟨"start", "Event_Start", .origin, [], [], [some "loop"]⟩,
    ⟨"loop", Kind.whileName, .origin, [.bool true], [none], [none, none]⟩] }

private theorem endless_compile : (endless.compile loopCatalog true).toOption = some
    ⟨⟨"endless", 0, [⟨"_start", 0⟩], [.jumpUnless 0 2, .jump 0, .jump haltAddress],
      [HeapLayout.internal "__const_SystemBoolean_0" boolType (.bool true)]⟩, []⟩ := by
  decide +kernel

theorem compile_closed_endless : ∃ result, endless.compile loopCatalog true = .ok result ∧
    result.program.Closed ∧ result.program.Confines := by
  cases compiled : endless.compile loopCatalog true with
  | error error =>
    have given := endless_compile
    rw [compiled] at given
    cases given
  | ok result => exact ⟨result, rfl, Graph.compile_closed compiled⟩

end Compilation

end ScriptGraph
