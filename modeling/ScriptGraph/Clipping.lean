import ScriptGraph.Bytes.Base64
import ScriptGraph.Bytes.Deflate
import ScriptGraph.Json.Printer
import ScriptGraph.Json.Reader
import ScriptGraph.Graph.Document

/-!
Clippings: nodes on their way from one graph to another, and the texts that hold them. Such a
text is a document, compressed and written as characters.
-/

set_option autoImplicit false
set_option relaxedAutoImplicit false

namespace ScriptGraph

/-- Nodes taken out of a graph. -/
structure Clipping where
  nodes : List Node
deriving DecidableEq

inductive ClippingError where
  /-- The text stands for no bytes. -/
  | encoding
  /-- The bytes are damaged or cut off. -/
  | compression
  /-- The document describes no nodes. -/
  | format
deriving DecidableEq, Repr

namespace Clipping

def toJson (c : Clipping) : Json := .object [("nodes", .array (c.nodes.map Node.toJson))]

def ofJson? (document : Json) : Option Clipping := do
  let record ← document.record? ["nodes"]
  return ⟨← record.required "nodes" (Json.list? Node.ofJson?)⟩

def toText (c : Clipping) : String :=
  String.ofList (Base64.encode (Deflate.deflate c.toJson.compact.toUTF8.toList))

def ofText (text : String) : Except ClippingError Clipping :=
  match Base64.decode? (Text.trimmed text.toList) with
  | none => .error .encoding
  | some compressed =>
    match Deflate.inflate? compressed with
    | none => .error .compression
    | some bytes =>
      match (Json.ofBytes? bytes).bind ofJson? with
      | none => .error .format
      | some clipping => .ok clipping

/-- Whether a text holds a clipping. -/
def isHeldBy (text : String) : Bool :=
  match ofText text with
  | .ok _ => true
  | .error _ => false

end Clipping

end ScriptGraph
