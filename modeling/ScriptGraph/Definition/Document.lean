import ScriptGraph.Definition
import ScriptGraph.Value.Document

/-!
Reading definitions from documents.
-/

set_option autoImplicit false
set_option relaxedAutoImplicit false

namespace ScriptGraph

def Parameter.ofJson? (document : Json) : Option Parameter := do
  let record ← document.record? ["name", "type_name", "default"]
  return {
    name := ← record.required "name" Json.text?
    type := ← record.optional "type_name" none (Json.nullable? Json.text?)
    default := ← record.optional "default" .null Value.ofJson? }

/-- Reads a definition; all but its full name may be left out. -/
def Definition.ofJson? (document : Json) : Option Definition := do
  let record ← document.record? ["full_name", "name", "type_name", "inputs", "outputs", "flow",
    "input_flow_names", "output_flow_names"]
  return {
    fullName := ← record.required "full_name" Json.text?
    name := ← record.optional "name" "" Json.text?
    type := ← record.optional "type_name" none (Json.nullable? Json.text?)
    inputs := ← record.optional "inputs" [] (Json.list? Parameter.ofJson?)
    outputs := ← record.optional "outputs" [] (Json.list? Parameter.ofJson?)
    flow := ← record.optional "flow" false Json.bool?
    inputFlowNames := ← record.optional "input_flow_names" [] (Json.list? Json.text?)
    outputFlowNames := ← record.optional "output_flow_names" [] (Json.list? Json.text?) }

def Definition.listOfJson? : Json → Option (List Definition) :=
  Json.list? Definition.ofJson?

end ScriptGraph
