import ScriptGraph.Graph
import ScriptGraph.Diagnostic

/-!
Breaking cycles of flow. A search in depth from every node in order finds the flows that lead
back to a node of the path being searched; exactly these are cleared.
-/

set_option autoImplicit false
set_option relaxedAutoImplicit false

namespace ScriptGraph

/-- Whether a node is on the path being searched or has been left for good. -/
inductive Mark where
  | active
  | done
deriving DecidableEq

/-- A search in progress: the latest marks first, and the flows found to close a cycle in order. -/
structure Search where
  marks : List (Uid × Mark)
  closing : List (Uid × Nat)

namespace Search

def start : Search := ⟨[], []⟩

def mark? (s : Search) (uid : Uid) : Option Mark := s.marks.lookup uid

def set (s : Search) (uid : Uid) (mark : Mark) : Search :=
  { s with marks := (uid, mark) :: s.marks }

/-- Looks at one flow output; a target that was never seen is searched itself. -/
def inspect (visit : Uid → Search → Search) (uid : Uid) (s : Search) (flow : Option Uid × Nat) :
    Search :=
  match flow.1 with
  | none => s
  | some target =>
    match s.mark? target with
    | some .active => { s with closing := s.closing ++ [(uid, flow.2)] }
    | some .done => s
    | none => visit target s

/-- Searches from a node. The depth of the search is bounded by the number of nodes, since the
nodes of a path are distinct and only the last one may be missing from the graph. -/
def visit (g : Graph) : Nat → Uid → Search → Search
  | 0, _, s => s
  | depth + 1, uid, s =>
    let flows := ((g.find? uid).map Node.flows).getD []
    (flows.zipIdx.foldl (inspect (visit g depth) uid) (s.set uid .active)).set uid .done

def run (g : Graph) : Search :=
  g.uids.foldl (fun s uid =>
    if (s.mark? uid).isSome then s else visit g (g.nodes.length + 1) uid s) start

end Search

namespace Graph

/-- The flows that close a cycle, in the order in which the search meets them. -/
def closingFlows (g : Graph) : List (Uid × Nat) := (Search.run g).closing

def clearFlows (g : Graph) (flows : List (Uid × Nat)) : Graph :=
  flows.foldl (fun g flow => g.update flow.1 fun n => { n with flows := n.flows.set flow.2 none }) g

/-- The graph without the flows that close a cycle, and one diagnostic for each of them. -/
def breakFlowCycles (g : Graph) : Graph × List Diagnostic :=
  (g.clearFlows g.closingFlows,
    g.closingFlows.map fun flow => ⟨flow.1, .recursiveFlow flow.2⟩)

end Graph

end ScriptGraph
