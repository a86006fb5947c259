import ScriptGraph.Diagnostic

/-!
The failures that end a compilation.
-/

set_option autoImplicit false
set_option relaxedAutoImplicit false

namespace ScriptGraph

/-- What a strict compilation is refused with: the number of errors among its diagnostics, the text
of the first of them, and all its diagnostics. -/
structure Rejection where
  errors : Nat
  first : String
  diagnostics : List Diagnostic
deriving DecidableEq

inductive CompileError where
  | absentNode (uid : Uid)
  | absentOutput (uid : Uid) (output available : Nat)
  | unresolvedLabel (label : Nat)
  /-- A strict compilation that met errors. -/
  | rejected (rejection : Rejection)
deriving DecidableEq

namespace CompileError

def diagnostics : CompileError → List Diagnostic
  | .rejected rejection => rejection.diagnostics
  | _ => []

def message : CompileError → String
  | .absentNode uid =>
    "Heap slot requested for node '" ++ uid ++ "', which is not part of the compiled graph"
  | .absentOutput uid output available =>
    "Heap slot requested for output " ++ Text.decimal output ++ " of node '" ++ uid ++
      "', which only has " ++ Text.decimal available
  | .unresolvedLabel label =>
    "Jump label " ++ Text.decimal label ++ " was referenced but never placed"
  | .rejected rejection =>
    "Compilation rejected with " ++ Text.decimal rejection.errors ++
      " error diagnostic(s); first: " ++ rejection.first

end CompileError

end ScriptGraph
