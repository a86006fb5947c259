import ScriptGraph.Session.Addition

/-!
Repairing the graph of a session, as is done with every graph that is opened: comments become
layout records, nodes without definition go, connections that lead nowhere are cleared, and nodes
get the variables they need.
-/

set_option autoImplicit false
set_option relaxedAutoImplicit false

namespace ScriptGraph.Session

def comments (g : Graph) : List Node := g.nodes.filter fun n => n.kind = .comment

def commentText (n : Node) : String := (n.values[0]?.bind Value.text?).getD ""

/-- The session with a comment among its records instead of its nodes. -/
def convertComment (s : Session) (n : Node) : Session :=
  { s with
    graph := s.graph.extract n.uid
    layout := s.layout.addComment n.uid (commentText n) n.position }

def convertComments (s : Session) : Session × List Diagnostic :=
  ((comments s.graph).foldl convertComment s,
    (comments s.graph).map fun n => ⟨n.uid, .convertedComment⟩)

/-- Binds nodes to the variables they need, as far as that is possible. Only a variable with too few
entries breaks this off. -/
def prepareEach (s : Session) : List Uid → Outcome Unit
  | [] => (.ok (), s)
  | uid :: rest =>
    match s.prepare uid with
    | (.error (.missingEntry name), s) => (.error (.missingEntry name), s)
    | (_, s) => s.prepareEach rest

/-- The session with its graph repaired except for the variables that nodes need, and what was
repaired. -/
def restore (s : Session) : Session × List Diagnostic :=
  let (converted, comments) := s.convertComments
  let (defined, missing) := converted.graph.removeUndefined s.catalog
  let (restored, dangling) := defined.restoreConnections s.catalog
  ({ converted with graph := restored }, comments ++ missing ++ dangling)

/-- Repairs the graph; gives what was repaired. -/
def reload (s : Session) : Outcome (List Diagnostic) :=
  let (restored, diagnostics) := s.restore
  match { restored with repairing := true }.prepareEach restored.graph.uids with
  | (.error error, s) => (.error error, s)
  | (.ok (), s) => (.ok diagnostics, { s with repairing := false, dirty := true, diagnostics })

/-- A session for an asset, which is repaired. -/
def ofAsset (catalog : Catalog) (asset : Asset) (settings : Settings) (supply : Supply) :
    Except EditError Session :=
  match { create catalog settings supply with
      graph := asset.graph, layout := asset.layout : Session }.reload with
  | (.error error, _) => .error error
  | (.ok _, s) => .ok s

end ScriptGraph.Session
