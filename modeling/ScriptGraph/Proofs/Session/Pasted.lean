import ScriptGraph.Proofs.Clipping.Reproduced
import ScriptGraph.Proofs.Session.WellFormed

/-!
What is pasted. A clipping that is inserted is reproduced by nodes after those that the graph has, and
those stay as they are. Laying out the flows of new blocks moves them together, in the same order.
-/

set_option autoImplicit false
set_option relaxedAutoImplicit false

namespace ScriptGraph

variable {c : Catalog} {g : Graph}

/-! ## Flows of new nodes -/

/-- A node is another with at most its flows moved together, if it is a block. -/
structure Node.Settled (m n : Node) : Prop where
  uid : m.uid = n.uid
  fullName : m.fullName = n.fullName
  values : m.values = n.values
  links : m.links = n.links
  targets : m.targets = n.targets
  ports : n.kind ≠ .block → m.flows = n.flows

namespace Graph

theorem relaid_settled {n : Node}
    (shaped : ∀ d, c.find? n.fullName = some d → d.kind ≠ .block → n.flows.length = d.flowArity) :
    (relaid c n).Settled n := by
  cases found : c.find? n.fullName with
  | none =>
    have same : relaid c n = n := by simp only [relaid, found]
    rw [same]
    exact ⟨rfl, rfl, rfl, rfl, rfl, fun _ => rfl⟩
  | some d =>
    have laid : relaid c n = n.layFlows d := by simp only [relaid, found]
    have kind : d.kind = n.kind := Catalog.find?_kind found
    rw [laid]
    by_cases block : d.kind = .block
    · have targets : (n.layFlows d).targets = n.targets := by
        rw [Node.targets, Node.layFlows, Node.laidOut_block block]
        simp [Node.targets]
      exact ⟨rfl, rfl, rfl, rfl, targets, fun other => absurd (kind.symm.trans block) other⟩
    · have length : n.flows.length = Node.flowPorts d n.flows := by
        rw [Node.flowPorts, if_neg block, shaped d found block]
      have same : n.layFlows d = n := by rw [Node.layFlows, Node.laidOut_of_length block length]
      rw [same]
      exact ⟨rfl, rfl, rfl, rfl, rfl, fun _ => rfl⟩

private theorem updateFirst_append {change : Node → Node} {old rest : List Node} {n : Node}
    (new : ∀ k ∈ old, k.uid ≠ n.uid) :
    updateFirst n.uid change (old ++ n :: rest) = old ++ change n :: rest := by
  induction old with
  | nil => exact if_pos rfl
  | cons k old ih =>
    rw [List.cons_append, updateFirst, if_neg (new k List.mem_cons_self),
      ih fun l hl => new l (List.mem_cons_of_mem k hl)]
    rfl

theorem nodes_foldl_relayout {old added : List Node} (distinct : (added.map Node.uid).Nodup)
    (new : ∀ n ∈ added, ∀ k ∈ old, k.uid ≠ n.uid) :
    ((added.map Node.uid).foldl (fun (g : Graph) uid => g.relayout c uid)
      { g with nodes := old ++ added }).nodes = old ++ added.map (relaid c) := by
  induction added generalizing old with
  | nil => rfl
  | cons n added ih =>
    obtain ⟨apart, distinct⟩ := List.nodup_cons.mp distinct
    have first : ({ g with nodes := old ++ n :: added } : Graph).relayout c n.uid =
        { g with nodes := old ++ [relaid c n] ++ added } := by
      rw [relayout_eq, update, updateFirst_append (new n List.mem_cons_self), List.append_assoc]
      rfl
    have later : ∀ m ∈ added, ∀ k ∈ old ++ [relaid c n], k.uid ≠ m.uid := by
      intro m hm k hk
      rcases List.mem_append.mp hk with hk | hk
      · exact new m (List.mem_cons_of_mem n hm) k hk
      · rw [List.mem_singleton.mp hk, (relaid_fewer c n).uid]
        exact fun same => apart (same ▸ List.mem_map_of_mem hm)
    rw [List.map_cons, List.foldl_cons, first, ih distinct later, List.append_assoc]
    rfl

end Graph

namespace Plan

variable {uids : List (Uid × Uid)} {source : List Node} {copies : List (Node × Node)}

theorem Reproduces.settled (reproduces : Reproduces c g uids source copies) {change : Node → Node}
    (settled : ∀ e ∈ copies, (change e.2).Settled e.2) :
    Reproduces c g uids source (copies.map fun e => (e.1, change e.2)) := by
  have firsts : (copies.map fun e => (e.1, change e.2)).map Prod.fst = copies.map Prod.fst :=
    List.map_map
  have new : ((copies.map fun e => (e.1, change e.2)).map fun e => e.2.uid) =
      copies.map fun e => e.2.uid := by
    rw [List.map_map]
    exact List.map_congr_left fun e he => (settled e he).uid
  have copyOf : copyOf? (copies.map fun e => (e.1, change e.2)) = copyOf? copies := by
    funext u
    rw [copyOf?, copyOf?, List.map_map]
    congr 1
    exact List.map_congr_left fun e he => congrArg (Prod.mk e.1.uid) (settled e he).uid
  constructor
  case inOrder => exact firsts ▸ reproduces.inOrder
  case chosen => exact firsts ▸ reproduces.chosen
  case distinct => exact new ▸ reproduces.distinct
  case new =>
    rw [List.forall_mem_map]
    exact fun e he => (settled e he).uid ▸ reproduces.new e he
  case fullName =>
    rw [List.forall_mem_map]
    exact fun e he => (settled e he).fullName.trans (reproduces.fullName e he)
  case copied =>
    rw [List.forall_mem_map]
    exact fun e he => (settled e he).uid ▸ reproduces.copied e he
  case reused => exact reproduces.reused
  case unlisted => exact reproduces.unlisted
  case inputs =>
    rw [List.forall_mem_map]
    exact fun e he => (settled e he).links ▸ reproduces.inputs e he
  case links =>
    rw [List.forall_mem_map]
    intro e he
    rw [List.forall_mem_map]
    intro f hf
    dsimp only
    rw [(settled e he).links, (settled f hf).uid]
    exact reproduces.links e he f hf
  case leaving =>
    rw [List.forall_mem_map, new]
    intro e he
    dsimp only
    rw [(settled e he).links]
    exact reproduces.leaving e he
  case targets =>
    rw [List.forall_mem_map, copyOf]
    exact fun e he => (settled e he).targets.trans (reproduces.targets e he)
  case ports =>
    rw [List.forall_mem_map, copyOf]
    intro e he other
    have same : e.2.kind = e.1.kind := by rw [Node.kind, Node.kind, reproduces.fullName e he]
    exact ((settled e he).ports (same ▸ other)).trans (reproduces.ports e he other)
  case bound =>
    rw [List.forall_mem_map]
    exact fun e he => (settled e he).values ▸ reproduces.bound e he
  case literals =>
    rw [List.forall_mem_map]
    exact fun e he => (settled e he).values ▸ reproduces.literals e he

end Plan

namespace Session

/-- What is planned for a clipping that is inserted. -/
def planned (s : Session) (clipping : Clipping) (anchor : Position) : Plan :=
  .ofClipping s.catalog s.graph anchor s.supply clipping

/-- A clipping whose nodes have different uids and the connections of their definitions is reproduced
by what is planned for it. Once it is inserted, what was planned comes after the nodes that the graph
had, which stay as they are, and reproduces the clipping there. -/
theorem insert_reproduces (s : Session) (clipping : Clipping) (anchor : Position)
    (fresh : s.supply.Fresh s.graph.uids) (distinct : (clipping.nodes.map Node.uid).Nodup)
    (shaped : ∀ n ∈ clipping.nodes, ∀ d ∈ s.catalog.find? n.fullName,
      n.links.length = d.inputs.length ∧ n.flows.length = Node.flowPorts d n.flows) :
    ∃ copies placed : List (Node × Node),
      copies.map Prod.snd = (s.planned clipping anchor).additions s.graph ∧
      Plan.Reproduces s.catalog s.graph (s.planned clipping anchor).uids clipping.nodes copies ∧
      (s.insert clipping anchor).2.graph.nodes = s.graph.nodes ++ placed.map Prod.snd ∧
      Plan.Reproduces s.catalog s.graph (s.planned clipping anchor).uids clipping.nodes placed := by
  obtain ⟨copies, additions, reproduces⟩ :=
    Plan.ofClipping_reproduces s.catalog s.graph anchor fresh distinct shaped
  have settled : ∀ e ∈ copies, (Graph.relaid s.catalog e.2).Settled e.2 := by
    intro e he
    refine Graph.relaid_settled fun d found other => ?_
    have listed : e.1 ∈ clipping.nodes := reproduces.inOrder.subset (List.mem_map_of_mem he)
    rw [reproduces.fullName e he] at found
    have kind : e.1.kind ≠ .block := fun block => other ((Catalog.find?_kind found).trans block)
    rw [reproduces.ports e he kind, List.length_map, (shaped e.1 listed d found).2, Node.flowPorts,
      if_neg other]
  have placed := reproduces.settled settled
  refine ⟨copies, _, additions, reproduces, ?_, placed⟩
  have uids : ((copies.map Prod.snd).map Node.uid).Nodup := by
    rw [List.map_map]
    exact reproduces.distinct
  have new : ∀ n ∈ copies.map Prod.snd, ∀ k ∈ s.graph.nodes, k.uid ≠ n.uid := by
    rw [List.forall_mem_map]
    exact fun e he k hk same => reproduces.new e he (same ▸ Graph.uid_mem hk)
  have laid := Graph.nodes_foldl_relayout (c := s.catalog) (g := s.graph) uids new
  rw [additions] at laid
  rw [insert]
  dsimp only [touched]
  rw [laid, ← additions, List.map_map, List.map_map]
  rfl

def occupied : Session :=
  let count : Node := ⟨"a", "Variable_SystemInt32", .origin,
    [.int32 0, .text "count", .bool false, .bool false, .text "none"],
    [none, none, none, none, none], []⟩
  { create Catalog.intrinsic .default (.marks 'b') with
    graph := { Graph.empty "a" with nodes := [count, ⟨"aa", "Event_Start", .origin, [], [], [none]⟩] } }

/-- The variable once more, the event once more, and a block that leads to both another node and the
event; one node has no definition. -/
def crowd : Clipping := ⟨[
  ⟨"a", "Variable_SystemInt32", .origin,
    [.int32 0, .text "count", .bool false, .bool false, .text "none"],
    [none, none, none, none, none], []⟩,
  ⟨"x", "Event_Start", .origin, [], [], [some "y"]⟩,
  ⟨"y", Kind.blockName, .origin, [], [], [none, some "x", some "z"]⟩,
  ⟨"z", Kind.setVariableName, .origin, [.text "a", .null, .bool false],
    [some ⟨"a", 0⟩, some ⟨"w", 0⟩, none], [none]⟩,
  ⟨"v", "Unheard_Of", .origin, [], [], []⟩,
  ⟨"w", Kind.getVariableName, .origin, [.text "a"], [none], []⟩]⟩

/-- Three nodes are added, and the block leads to the one that is left of its targets. -/
theorem insert_reproduces_crowd :
    (∃ copies placed : List (Node × Node),
      copies.map Prod.snd = (occupied.planned crowd .origin).additions occupied.graph ∧
      Plan.Reproduces occupied.catalog occupied.graph (occupied.planned crowd .origin).uids crowd.nodes
        copies ∧
      (occupied.insert crowd .origin).2.graph.nodes = occupied.graph.nodes ++ placed.map Prod.snd ∧
      Plan.Reproduces occupied.catalog occupied.graph (occupied.planned crowd .origin).uids crowd.nodes
        placed) ∧
    (occupied.insert crowd .origin).2.graph.nodes.map (fun n => (n.uid, n.links, n.flows)) = [
      ("a", [none, none, none, none, none], []), ("aa", [], [none]),
      ("bbb", [], [some "bbbb", none]), ("bbbb", [some ⟨"a", 0⟩, some ⟨"bbbbb", 0⟩, none], [none]),
      ("bbbbb", [none], [])] := by
  have fresh : occupied.supply.Fresh occupied.graph.uids :=
    (Supply.marks_fresh (by decide)).draw.of_subset fun u listed => List.mem_append_left _ listed
  refine ⟨insert_reproduces occupied crowd .origin fresh (by decide) (by decide +kernel), ?_⟩
  decide +kernel

end Session

end ScriptGraph
