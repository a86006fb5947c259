import ScriptGraph.Code.Assembly
import ScriptGraph.Code.Lowering
import ScriptGraph.Snapshot

/-!
Compiling a graph: its snapshot is lowered and assembled. The graph itself is never changed.
-/

set_option autoImplicit false
set_option relaxedAutoImplicit false

namespace ScriptGraph

/-- A program with the diagnostics of the repairs it took. -/
structure Compilation where
  program : Program
  diagnostics : List Diagnostic
deriving DecidableEq

namespace Compilation

/-- Refuses diagnostics among which there is an error, if compiling is strict. -/
def checked (strict : Bool) (diagnostics : List Diagnostic) : Except CompileError Unit :=
  match diagnostics.filter Diagnostic.isError with
  | [] => .ok ()
  | first :: rest =>
    if strict then .error (.rejected ⟨rest.length + 1, first.text, diagnostics⟩) else .ok ()

/-- The code of a snapshot, and what lowering it has produced besides. -/
def lower (c : Catalog) (snapshot : Graph) (diagnostics : List Diagnostic) :
    Except CompileError (List Stream × Lowering) :=
  Lowering.streams c snapshot ⟨.ofGraph c snapshot, diagnostics, 0, []⟩

def ofSnapshot (c : Catalog) (strict : Bool) (snapshot : Graph) (diagnostics : List Diagnostic) :
    Except CompileError Compilation := do
  let (streams, lowering) ← lower c snapshot diagnostics
  checked strict lowering.diagnostics
  let program ← Assembly.assemble snapshot.name snapshot.updateOrder streams
    lowering.heap.symbols.toList
  return ⟨program, lowering.diagnostics⟩

end Compilation

def Graph.compile (c : Catalog) (strict : Bool) (g : Graph) : Except CompileError Compilation :=
  let (snapshot, diagnostics) := g.snapshot c
  Compilation.ofSnapshot c strict snapshot diagnostics

end ScriptGraph
