import ScriptGraph.Clipping.Cut
import ScriptGraph.Clipping.Plan
import ScriptGraph.Editing
import ScriptGraph.Session

/-!
Copying and pasting nodes of a session as texts.
-/

set_option autoImplicit false
set_option relaxedAutoImplicit false

namespace ScriptGraph

inductive PasteError where
  | edit (error : EditError)
  | clipping (error : ClippingError)
deriving DecidableEq

namespace Session

def copy (s : Session) (selection : List Uid) : String := (s.graph.clip selection).toText

/-- The session with a clipping added around a position, and the uids of the nodes added. -/
def insert (s : Session) (clipping : Clipping) (anchor : Position) : List Uid × Session :=
  let plan := Plan.ofClipping s.catalog s.graph anchor s.supply clipping
  let additions := plan.additions s.graph
  let uids := additions.map Node.uid
  let graph := uids.foldl (fun g uid => g.relayout s.catalog uid)
    { s.graph with nodes := s.graph.nodes ++ additions }
  (uids, { s.touched graph with supply := plan.supply })

/-- Adds what a text holds; a text that holds no clipping changes nothing. -/
def paste (s : Session) (text : String) (anchor : Position) :
    Except PasteError (List Uid) × Session :=
  if s.repairing then (.error (.edit .underRepair), s)
  else
    match Clipping.ofText text with
    | .error error => (.error (.clipping error), s)
    | .ok clipping =>
      let (uids, s) := s.insert clipping anchor
      (.ok uids, s)

end Session

end ScriptGraph
