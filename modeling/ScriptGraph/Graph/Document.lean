import ScriptGraph.Graph
import ScriptGraph.Text.Numeral
import ScriptGraph.Text.Segment
import ScriptGraph.Value.Document

/-!
Nodes and graphs in documents. A link is written as the uid of the node and the number of its output with
a bar between them; an input or output without connection is written as an empty text.
-/

set_option autoImplicit false
set_option relaxedAutoImplicit false

namespace ScriptGraph

namespace Link

/-- The number a text denotes: digits after at most one plus sign, below two to the 64. -/
def outputNumber? (text : List Char) : Option Nat :=
  let digits := match text with
    | '+' :: rest => rest
    | text => text
  (Text.decimalValue? digits).filter (· < UInt64.size)

/-- The link a text denotes. A text with nothing before the bar is no link; without a bar, or
with anything but a number after it, the link is to output zero. -/
def ofText? (text : String) : Option Link :=
  if text.isEmpty then none
  else
    match Text.cutAt? ['|'] text.toList with
    | some ([], _) => none
    | some (node, output) => some ⟨String.ofList node, (outputNumber? (Text.trimmed output)).getD 0⟩
    | none => some ⟨text, 0⟩

def text (l : Link) : String :=
  l.node ++ "|" ++ Text.decimal l.output

end Link

def Position.toJson (p : Position) : Json :=
  .object [("x", .single p.x), ("y", .single p.y)]

def Position.ofJson? (document : Json) : Option Position := do
  let record ← document.record? ["x", "y"]
  return ⟨← record.required "x" Json.single?, ← record.required "y" Json.single?⟩

namespace Node

def linkToJson (link : Option Link) : Json :=
  .text ((link.map Link.text).getD "")

def linkOfJson? (document : Json) : Option (Option Link) :=
  (Json.nullable? Json.text? document).map fun text => text.bind Link.ofText?

def flowToJson (flow : Option Uid) : Json :=
  .text (flow.getD "")

def flowOfJson? (document : Json) : Option (Option Uid) :=
  (Json.nullable? Json.text? document).map fun uid => uid.filter fun uid => !uid.isEmpty

def toJson (n : Node) : Json :=
  .object [("uid", .text n.uid), ("full_name", .text n.fullName),
    ("position", n.position.toJson), ("node_values", .array (n.values.map Value.toJson)),
    ("node_uids", .array (n.links.map linkToJson)),
    ("flow_uids", .array (n.flows.map flowToJson))]

/-- Reads a node; all but its uid and its full name may be left out. -/
def ofJson? (document : Json) : Option Node := do
  let record ← document.record?
    ["uid", "full_name", "position", "node_values", "node_uids", "flow_uids"]
  return {
    uid := ← record.required "uid" Json.text?
    fullName := ← record.required "full_name" Json.text?
    position := ← record.optional "position" .origin Position.ofJson?
    values := ← record.optional "node_values" [] (Json.list? Value.ofJson?)
    links := ← record.optional "node_uids" [] (Json.list? linkOfJson?)
    flows := ← record.optional "flow_uids" [] (Json.list? flowOfJson?) }

end Node

namespace Graph

def toJson (g : Graph) : Json :=
  .object [("name", .text g.name), ("description", .text g.description),
    ("update_order", .integer g.updateOrder.toInt), ("version", .integer g.version.toNat),
    ("nodes", .array (g.nodes.map Node.toJson))]

def ofJson? (document : Json) : Option Graph := do
  let record ← document.record? ["name", "description", "update_order", "version", "nodes"]
  return {
    name := ← record.required "name" Json.text?
    description := ← record.optional "description" "" Json.text?
    updateOrder := ← record.optional "update_order" 0 Json.int32?
    version := ← record.optional "version" 0 Json.uint32?
    nodes := ← record.optional "nodes" [] (Json.list? Node.ofJson?) }

end Graph

end ScriptGraph
