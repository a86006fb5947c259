import ScriptGraph.Json.Fields
import ScriptGraph.Json.Reader

/-!
The settings of a session.
-/

set_option autoImplicit false
set_option relaxedAutoImplicit false

namespace ScriptGraph

structure Settings where
  /-- Whether a tick compiles a changed graph. -/
  autoCompile : Bool
  /-- Whether diagnostics that are errors make compiling fail. -/
  strict : Bool
deriving DecidableEq, Repr

namespace Settings

def default : Settings := ⟨true, false⟩

def ofJson? (document : Json) : Option Settings := do
  let record ← document.record? ["auto_compile", "strict"]
  return {
    autoCompile := ← record.optional "auto_compile" default.autoCompile Json.bool?
    strict := ← record.optional "strict" default.strict Json.bool? }

def ofText? (text : String) : Option Settings := (Json.ofText? text).bind ofJson?

end Settings

end ScriptGraph
