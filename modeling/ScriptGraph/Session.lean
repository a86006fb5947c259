import ScriptGraph.Asset
import ScriptGraph.Compilation
import ScriptGraph.EditError
import ScriptGraph.Settings

/-!
Sessions: one graph while it is being edited, with its layout and the last program compiled from
it. Compiling forgets that the graph has changed, and edits remember it. After a repair that was
broken off, edits are refused until one finishes.
-/

set_option autoImplicit false
set_option relaxedAutoImplicit false

namespace ScriptGraph

structure Session where
  catalog : Catalog
  graph : Graph
  layout : Layout
  settings : Settings
  /-- Whether a repair of the graph has begun and not finished. -/
  repairing : Bool
  /-- Whether the graph has changed since it was last compiled. -/
  dirty : Bool
  /-- The last program that was compiled. -/
  program : Option Program
  /-- What the last compilation or repair has reported. -/
  diagnostics : List Diagnostic
  /-- Where the uids of new nodes and the names of new graphs come from. -/
  supply : Supply

namespace Session

/-- What an operation gives, and the session after it. -/
abbrev Outcome (α : Type) := Except EditError α × Session

def create (catalog : Catalog) (settings : Settings) (supply : Supply) : Session :=
  let (name, supply) := supply.draw
  { catalog, graph := .empty name, layout := .empty, settings, repairing := false, dirty := false,
    program := none, diagnostics := [], supply }

def toAsset (s : Session) : Asset := ⟨s.graph, s.layout⟩

def touched (s : Session) (graph : Graph) : Session := { s with graph, dirty := true }

def editing {α : Type} (s : Session) (edit : Outcome α) : Outcome α :=
  if s.repairing then (.error .underRepair, s) else edit

/-! ## Compiling -/

/-- Compiles the graph. If that fails, the last program stays, and what a strict compilation has
reported is kept. -/
def compile (s : Session) : Except CompileError Program × Session :=
  match s.graph.compile s.catalog s.settings.strict with
  | .ok compilation =>
    (.ok compilation.program,
      { s with
        dirty := false
        program := some compilation.program
        diagnostics := compilation.diagnostics })
  | .error (.rejected rejection) =>
    (.error (.rejected rejection),
      { s with dirty := false, diagnostics := rejection.diagnostics })
  | .error error => (.error error, { s with dirty := false })

/-- Compiles a changed graph if the settings ask for it, unless it is being repaired. -/
def tick (s : Session) : Option (Except CompileError Program) × Session :=
  if s.dirty && s.settings.autoCompile && !s.repairing then
    let (result, s) := s.compile
    (some result, s)
  else (none, s)

end Session

end ScriptGraph
