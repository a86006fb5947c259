import ScriptGraph.Clipping
import ScriptGraph.Graph

/-!
Taking nodes out of a graph: a clipping holds the selected nodes, placed around their common
center, and before them the variables that they are bound to, which stay where they are.
-/

set_option autoImplicit false
set_option relaxedAutoImplicit false

namespace ScriptGraph

/-- The smallest box around positions. -/
structure Box where
  least : Position
  greatest : Position

namespace Box

def add (b : Box) (p : Position) : Box :=
  ⟨⟨b.least.x.lesser p.x, b.least.y.lesser p.y⟩, ⟨b.greatest.x.greater p.x, b.greatest.y.greater p.y⟩⟩

def around? : List Position → Option Box
  | [] => none
  | p :: rest => some (rest.foldl add ⟨p, p⟩)

def center (b : Box) : Position :=
  ⟨(b.least.x + b.greatest.x).half, (b.least.y + b.greatest.y).half⟩

end Box

/-- The center of the box around positions; the origin if there are none. -/
def centerOf (positions : List Position) : Position :=
  ((Box.around? positions).map Box.center).getD .origin

namespace Graph

def selected (g : Graph) (selection : List Uid) : List Node :=
  g.nodes.filter fun n => selection.contains n.uid

def boundNodes (g : Graph) : List Uid → List Node → List Node
  | _, [] => []
  | seen, n :: rest =>
    match n.target?.bind g.find? with
    | none => g.boundNodes seen rest
    | some target =>
      if seen.contains target.uid then g.boundNodes seen rest
      else target :: g.boundNodes (target.uid :: seen) rest

/-- Nodes after those taken already, each moved so that the center becomes the origin. Variables
that are taken already are left out. -/
def moved (center : Position) : List Node → List Node → List Node
  | taken, [] => taken
  | taken, n :: rest =>
    if n.isVariable && taken.any (fun t => t.uid == n.uid) then moved center taken rest
    else moved center (taken ++ [{ n with position := n.position - center }]) rest

/-- The clipping of a selection. -/
def clip (g : Graph) (selection : List Uid) : Clipping :=
  let nodes := g.selected selection
  ⟨moved (centerOf (nodes.map Node.position)) (g.boundNodes [] nodes) nodes⟩

end Graph

end ScriptGraph
