import ScriptGraph.Graph.Document
import ScriptGraph.Json.Printer
import ScriptGraph.Json.Reader
import ScriptGraph.Layout

/-!
Assets: a graph together with its layout, as they are kept in one text.
-/

set_option autoImplicit false
set_option relaxedAutoImplicit false

namespace ScriptGraph

def Layout.toJson (l : Layout) : Json := .array l.records

def Layout.ofJson? (document : Json) : Option Layout :=
  (Json.list? Json.canonical? document).map Layout.mk

structure Asset where
  graph : Graph
  layout : Layout
deriving DecidableEq

namespace Asset

def toJson (a : Asset) : Json :=
  .object [("graph", a.graph.toJson), ("layout", a.layout.toJson)]

def ofJson? (document : Json) : Option Asset := do
  let record ← document.record? ["graph", "layout"]
  return {
    graph := ← record.required "graph" Graph.ofJson?
    layout := ← record.optional "layout" .empty Layout.ofJson? }

def toText (a : Asset) : String := a.toJson.indented

def ofText? (text : String) : Option Asset := (Json.ofText? text).bind ofJson?

end Asset

end ScriptGraph
