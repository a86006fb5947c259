import ScriptGraph.Proofs.Graph.WellFormed
import ScriptGraph.Proofs.Node.Literals

/-!
Graphs whose connections and literals are valid: links lead to outputs that exist, flows to nodes with
a flow input, no node feeds itself, and literals fit their inputs.
-/

set_option autoImplicit false
set_option relaxedAutoImplicit false

namespace ScriptGraph.Graph

variable {c : Catalog} {g h : Graph} {uid u v : Uid} {link : Link} {n : Node} {d e : Definition}

/-- The definition of the node with a uid. -/
def definition? (c : Catalog) (g : Graph) (uid : Uid) : Option Definition :=
  (g.find? uid).bind fun n => c.find? n.fullName

structure Valid (c : Catalog) (g : Graph) : Prop where
  /-- The output of a link is one that its node has. -/
  outputs : ∀ u link, g.Linked u link →
    ∃ d, g.definition? c link.node = some d ∧ link.output < d.outputs.length
  /-- No node feeds itself. -/
  apart : ∀ u link, g.Linked u link → link.node ≠ u
  /-- Flows lead to nodes that have a flow input. -/
  inputs : ∀ u v, g.Leads u v → ∃ d, g.definition? c v = some d ∧ d.hasFlowInput
  /-- Literals fit the inputs that they stand at. -/
  literals : ∀ n ∈ g.nodes, ∀ d, c.find? n.fullName = some d → Node.Fit d n.values

theorem definition?_of_mem (distinct : g.uids.Nodup) (listed : n ∈ g.nodes)
    (found : c.find? n.fullName = some d) : g.definition? c n.uid = some d := by
  rw [definition?, find?_of_mem distinct listed]
  exact found

theorem mem_of_definition? (defined : g.definition? c uid = some d) :
    ∃ n ∈ g.nodes, n.uid = uid ∧ c.find? n.fullName = some d := by
  obtain ⟨n, found, known⟩ := Option.bind_eq_some_iff.mp defined
  exact ⟨n, find?_mem found, find?_uid found, known⟩

/-! ## Changes that keep definitions -/

theorem definition?_update {change : Node → Node}
    (same : ∀ n, (change n).uid = n.uid ∧ (change n).fullName = n.fullName) (other : Uid) :
    (g.update uid change).definition? c other = g.definition? c other := by
  rw [definition?, find?_update fun n => (same n).1, definition?]
  split
  · rename_i here
    rw [here]
    cases g.find? uid with
    | none => rfl
    | some n => exact congrArg c.find? (same n).2
  · rfl

theorem definition?_mapNodes {change : Node → Node}
    (same : ∀ n, (change n).uid = n.uid ∧ (change n).fullName = n.fullName) (other : Uid) :
    (g.mapNodes change).definition? c other = g.definition? c other := by
  rw [definition?, find?_mapNodes fun n => (same n).1, definition?]
  cases g.find? other with
  | none => rfl
  | some n => exact congrArg c.find? (same n).2

theorem definition?_append {added : List Node} (defined : g.definition? c uid = some d) :
    ({ g with nodes := g.nodes ++ added } : Graph).definition? c uid = some d := by
  obtain ⟨m, found, known⟩ := Option.bind_eq_some_iff.mp defined
  rw [definition?, find?, List.find?_append, show g.nodes.find? _ = some m from found]
  exact known

theorem definition?_extract (distinct : g.uids.Nodup) (other : u ≠ uid) :
    (g.extract uid).definition? c u = g.definition? c u := by
  have forgets : (g.extract uid).definition? c u = (g.remove uid).definition? c u :=
    definition?_mapNodes (fun n => ⟨(n.forget_fewer uid).uid, rfl⟩) u
  refine forgets.trans ?_
  rw [definition?, definition?, find?, nodes_remove distinct, List.find?_filter, find?]
  congr 2
  funext n
  by_cases here : n.uid = u
  · simp [here, other]
  · simp [here]

private theorem relaid_same (c : Catalog) (n : Node) : (relaid c n).uid = n.uid ∧
    (relaid c n).fullName = n.fullName ∧ (relaid c n).values = n.values := by
  unfold relaid
  split <;> exact ⟨rfl, rfl, rfl⟩

theorem definition?_relayoutBlocks (u : Uid) :
    (g.relayoutBlocks c).definition? c u = g.definition? c u := by
  unfold relayoutBlocks
  split
  · exact definition?_mapNodes (fun n => by split <;> exact ⟨rfl, rfl⟩) u
  · rfl

/-! ## What stays valid -/

/-- A graph stays valid if it gets no connections, what they lead to keeps its definition, and the
literals are those that there were. -/
theorem Valid.of_fewer (valid : g.Valid c) (fewer : h.Fewer g)
    (outputs : ∀ u link, h.Linked u link → ∀ d, g.definition? c link.node = some d →
      h.definition? c link.node = some d)
    (inputs : ∀ u v, h.Leads u v → ∀ d, g.definition? c v = some d → h.definition? c v = some d)
    (literals : ∀ m ∈ h.nodes, ∀ d, c.find? m.fullName = some d → Node.Fit d m.values) :
    h.Valid c := by
  refine ⟨fun u link linked => ?_, fun u link linked => ?_, fun u v leads => ?_, literals⟩
  · obtain ⟨d, defined, inside⟩ := valid.outputs u link (fewer.links u link linked)
    exact ⟨d, outputs u link linked d defined, inside⟩
  · exact valid.apart u link (fewer.links u link linked)
  · obtain ⟨d, defined, input⟩ := valid.inputs u v (fewer.flows u v leads)
    exact ⟨d, inputs u v leads d defined, input⟩

theorem Valid.literals_of (valid : g.Valid c)
    (counterpart : ∀ m ∈ h.nodes, ∃ n ∈ g.nodes, m.fullName = n.fullName ∧ m.values = n.values) :
    ∀ m ∈ h.nodes, ∀ d, c.find? m.fullName = some d → Node.Fit d m.values := by
  intro m hm d found
  obtain ⟨n, hn, name, values⟩ := counterpart m hm
  rw [values]
  exact valid.literals n hn d (name ▸ found)

private theorem counterpart_update {change : Node → Node}
    (same : ∀ n, (change n).fullName = n.fullName ∧ (change n).values = n.values) :
    ∀ m ∈ (g.update uid change).nodes,
      ∃ n ∈ g.nodes, m.fullName = n.fullName ∧ m.values = n.values := by
  intro m hm
  rcases mem_update hm with hm | ⟨n, hn, -, rfl⟩
  · exact ⟨m, hm, rfl, rfl⟩
  · exact ⟨n, hn, (same n).1, (same n).2⟩

theorem Valid.update {change : Node → Node} (valid : g.Valid c) (fewer : ∀ n, (change n).Fewer n)
    (same : ∀ n, (change n).fullName = n.fullName ∧ (change n).values = n.values) :
    (g.update uid change).Valid c := by
  have kept : ∀ u, (g.update uid change).definition? c u = g.definition? c u :=
    definition?_update fun n => ⟨(fewer n).uid, (same n).1⟩
  exact valid.of_fewer (update_fewer fewer g uid) (fun _ link _ d defined => kept link.node ▸ defined)
    (fun _ v _ d defined => kept v ▸ defined) (valid.literals_of (counterpart_update same))

theorem Valid.setLiteral (valid : g.Valid c) {index : Nat} {value : Value}
    (fits : ∀ n ∈ g.nodes, n.uid = uid → ∀ d, c.find? n.fullName = some d →
      value.fits (d.inputType index)) :
    (g.update uid fun n => { n with values := n.values.set index value }).Valid c := by
  have kept : ∀ u, (g.update uid fun n =>
      { n with values := n.values.set index value }).definition? c u = g.definition? c u :=
    definition?_update fun _ => ⟨rfl, rfl⟩
  refine valid.of_fewer ⟨fun u link linked => linked_of_update linked fun _ => ⟨rfl, rfl⟩,
    fun u v leads => leads_of_update leads fun _ => ⟨rfl, rfl⟩⟩
    (fun _ link _ d defined => kept link.node ▸ defined) (fun _ v _ d defined => kept v ▸ defined) ?_
  intro m hm d found
  rcases mem_update hm with hm | ⟨n, hn, here, rfl⟩
  · exact valid.literals m hm d found
  · exact (valid.literals n hn d found).set (fits n hn here d found)

theorem Valid.append {added : List Node} (valid : g.Valid c)
    (outputs : ∀ m ∈ added, ∀ link, some link ∈ m.links →
      ∃ d, ({ g with nodes := g.nodes ++ added } : Graph).definition? c link.node = some d ∧
        link.output < d.outputs.length)
    (apart : ∀ m ∈ added, ∀ link, some link ∈ m.links → link.node ≠ m.uid)
    (inputs : ∀ m ∈ added, ∀ target, some target ∈ m.flows →
      ∃ d, ({ g with nodes := g.nodes ++ added } : Graph).definition? c target = some d ∧
        d.hasFlowInput)
    (literals : ∀ m ∈ added, ∀ d, c.find? m.fullName = some d → Node.Fit d m.values) :
    ({ g with nodes := g.nodes ++ added } : Graph).Valid c := by
  refine ⟨?_, ?_, ?_, fun m hm d known => ?_⟩
  · rintro u link ⟨m, hm, here, listed⟩
    rcases List.mem_append.mp hm with hm | hm
    · obtain ⟨d, defined, inside⟩ := valid.outputs u link ⟨m, hm, here, listed⟩
      exact ⟨d, definition?_append defined, inside⟩
    · exact outputs m hm link listed
  · rintro u link ⟨m, hm, rfl, listed⟩
    rcases List.mem_append.mp hm with hm | hm
    · exact valid.apart m.uid link ⟨m, hm, rfl, listed⟩
    · exact apart m hm link listed
  · rintro u v ⟨m, hm, here, listed⟩
    rcases List.mem_append.mp hm with hm | hm
    · obtain ⟨d, defined, input⟩ := valid.inputs u v ⟨m, hm, here, listed⟩
      exact ⟨d, definition?_append defined, input⟩
    · exact inputs m hm v listed
  · rcases List.mem_append.mp hm with hm | hm
    · exact valid.literals m hm d known
    · exact literals m hm d known

theorem Valid.push (valid : g.Valid c) (links : ∀ link, some link ∉ n.links)
    (flows : ∀ target, some target ∉ n.flows)
    (fit : ∀ d, c.find? n.fullName = some d → Node.Fit d n.values) : (g.push n).Valid c := by
  refine valid.append ?_ ?_ ?_ ?_ <;> refine List.forall_mem_singleton.mpr ?_
  · exact fun link listed => absurd listed (links link)
  · exact fun link listed => absurd listed (links link)
  · exact fun target listed => absurd listed (flows target)
  · exact fit

theorem Valid.extract (valid : g.Valid c) (distinct : g.uids.Nodup) : (g.extract uid).Valid c := by
  refine valid.of_fewer (extract_fewer g uid) (fun u link linked d defined => ?_)
    (fun u v leads d defined => ?_) (valid.literals_of fun m hm => ?_)
  · rwa [definition?_extract distinct (extract_links linked)]
  · rwa [definition?_extract distinct (extract_flows leads)]
  · obtain ⟨n, hn, rfl⟩ := List.mem_map.mp hm
    exact ⟨n, List.eraseP_sublist.subset hn, rfl, rfl⟩

theorem Valid.foldl_extract (valid : g.Valid c) (distinct : g.uids.Nodup) (uids : List Uid) :
    (uids.foldl Graph.extract g).Valid c := by
  induction uids generalizing g with
  | nil => exact valid
  | cons uid uids ih => exact ih (valid.extract distinct) (distinct_extract distinct)

theorem Valid.relayoutBlocks (valid : g.Valid c) : (g.relayoutBlocks c).Valid c := by
  refine valid.of_fewer (relayoutBlocks_fewer g c)
    (fun _ link _ d defined => (definition?_relayoutBlocks link.node).trans defined)
    (fun _ v _ d defined => (definition?_relayoutBlocks v).trans defined)
    (valid.literals_of fun m hm => ?_)
  unfold Graph.relayoutBlocks at hm
  split at hm
  · obtain ⟨n, hn, rfl⟩ := List.mem_map.mp hm
    refine ⟨n, hn, ?_⟩
    split <;> exact ⟨rfl, rfl⟩
  · exact ⟨m, hm, rfl, rfl⟩

theorem Valid.relayout (valid : g.Valid c) : (g.relayout c uid).Valid c :=
  valid.update (relaid_fewer c) fun n => (relaid_same c n).2

theorem Valid.foldl_relayout (valid : g.Valid c) (uids : List Uid) :
    (uids.foldl (fun g uid => g.relayout c uid) g).Valid c := by
  induction uids generalizing g with
  | nil => exact valid
  | cons uid uids ih => exact ih valid.relayout

/-! ## Connecting -/

theorem Valid.setLink (valid : g.Valid c) {source : Uid} {input output : Nat}
    (defined : g.definition? c source = some d) (inside : output < d.outputs.length)
    (apart : source ≠ uid) : (g.update uid fun n =>
      { n with links := n.links.set input (some ⟨source, output⟩) }).Valid c := by
  have kept : ∀ u, (g.update uid fun n =>
      { n with links := n.links.set input (some ⟨source, output⟩) }).definition? c u =
        g.definition? c u := definition?_update fun _ => ⟨rfl, rfl⟩
  refine ⟨fun u link linked => ?_, fun u link linked => ?_, fun u v leads => ?_,
    valid.literals_of (counterpart_update fun _ => ⟨rfl, rfl⟩)⟩
  · rw [kept]
    rcases linked_of_set linked with linked | ⟨-, rfl⟩
    · exact valid.outputs u link linked
    · exact ⟨d, defined, inside⟩
  · rcases linked_of_set linked with linked | ⟨rfl, rfl⟩
    · exact valid.apart u link linked
    · exact apart
  · rw [kept]
    exact valid.inputs u v (leads_of_update leads fun _ => ⟨rfl, rfl⟩)

theorem Valid.setFlow (valid : g.Valid c) {target : Uid} {port : Nat}
    (defined : g.definition? c target = some d) (input : d.hasFlowInput) :
    (g.update uid fun n => { n with flows := n.flows.set port (some target) }).Valid c := by
  have kept : ∀ u, (g.update uid fun n =>
      { n with flows := n.flows.set port (some target) }).definition? c u =
        g.definition? c u := definition?_update fun _ => ⟨rfl, rfl⟩
  refine ⟨fun u link linked => ?_, fun u link linked => ?_, fun u v leads => ?_,
    valid.literals_of (counterpart_update fun _ => ⟨rfl, rfl⟩)⟩
  · rw [kept]
    exact valid.outputs u link (linked_of_update linked fun _ => ⟨rfl, rfl⟩)
  · exact valid.apart u link (linked_of_update linked fun _ => ⟨rfl, rfl⟩)
  · rw [kept]
    rcases leads_of_set leads with leads | ⟨-, rfl⟩
    · exact valid.inputs u v leads
    · exact ⟨d, defined, input⟩

/-! ## Switching overloads -/

/-- A node that turns into one of another definition loses the links to outputs that it has no more.
Flows to it stay, so it needs a flow input if there are any. -/
theorem Valid.switched (valid : g.Valid c)
    (found : c.find? d.fullName = some d) (input : d.hasFlowInput ∨ ∀ u, ¬g.Leads u uid) :
    ((g.update uid (switched d)).mapNodes (dropLinks uid d.outputs.length)).Valid c := by
  have less : ((g.update uid (Graph.switched d)).mapNodes (dropLinks uid d.outputs.length)).Fewer g :=
    (mapNodes_fewer (fun n => n.dropLinks_fewer uid _) _).trans
      (update_fewer (fun n => n.switched_fewer d) g uid)
  have drops : ∀ u, ((g.update uid (Graph.switched d)).mapNodes
      (dropLinks uid d.outputs.length)).definition? c u =
        if u = uid then (g.find? uid).map fun _ => d else g.definition? c u := by
    intro u
    rw [definition?_mapNodes fun n => ⟨(n.dropLinks_fewer uid _).uid, rfl⟩, definition?,
      find?_update fun n => (n.switched_fewer d).uid]
    split
    · cases g.find? uid with
      | none => rfl
      | some n => exact found
    · rfl
  have there : ∀ {u e}, g.definition? c u = some e → u = uid →
      ((g.find? uid).map fun _ => d) = some d := by
    rintro u e defined rfl
    obtain ⟨n, found, -⟩ := Option.bind_eq_some_iff.mp defined
    rw [found]
    rfl
  refine ⟨fun u link linked => ?_, fun u link linked => ?_, fun u v leads => ?_,
    fun m hm e known => ?_⟩
  · obtain ⟨e, defined, inside⟩ := valid.outputs u link (less.links u link linked)
    rw [drops]
    split
    · rename_i here
      obtain ⟨m, hm, -, listed⟩ := linked
      obtain ⟨n, -, rfl⟩ := List.mem_map.mp hm
      exact ⟨d, there defined here, Node.mem_links_dropLinks listed here⟩
    · exact ⟨e, defined, inside⟩
  · exact valid.apart u link (less.links u link linked)
  · have leads := less.flows u v leads
    obtain ⟨e, defined, flowInput⟩ := valid.inputs u v leads
    rw [drops]
    split
    · rename_i here
      exact ⟨d, there defined here, input.resolve_right fun none => none u (here ▸ leads)⟩
    · exact ⟨e, defined, flowInput⟩
  · obtain ⟨m, listed, rfl⟩ := List.mem_map.mp hm
    rcases mem_update listed with there | ⟨n, -, -, rfl⟩
    · exact valid.literals m there e known
    · obtain rfl : d = e := Option.some.inj (found.symm.trans known)
      exact Node.settle_fit _ d

/-! ## Repair -/

theorem valid_restoreConnections (distinct : g.uids.Nodup)
    (defined : ∀ n ∈ g.nodes, ∃ d, c.find? n.fullName = some d) :
    (g.restoreConnections c).1.Valid c := by
  have connected := connected_restoreConnections distinct defined
  have connects : ∀ {u d},
      (∃ m, (g.restoreConnections c).1.find? u = some m ∧ c.find? m.fullName = some d) →
        (g.restoreConnections c).1.definition? c u = some d := by
    rintro u d ⟨m, found, known⟩
    rw [definition?, found]
    exact known
  refine ⟨?_, ?_, ?_, fun n hn d found => ?_⟩
  · rintro u link ⟨n, hn, -, listed⟩
    obtain ⟨m, d, found, known, inside⟩ := connected.links n hn link listed
    exact ⟨d, connects ⟨m, found, known⟩, inside⟩
  · rintro u link ⟨n, hn, rfl, listed⟩
    obtain ⟨m, -, d, -, rfl⟩ := mem_restoreConnections defined hn
    rw [Node.restored_uid]
    exact Node.restored_apart listed
  · rintro u v ⟨n, hn, -, listed⟩
    obtain ⟨m, d, found, known, input⟩ := connected.flows n hn v listed
    exact ⟨d, connects ⟨m, found, known⟩, input⟩
  · obtain ⟨m, -, e, known, rfl⟩ := mem_restoreConnections defined hn
    obtain rfl : e = d := Option.some.inj (known.symm.trans found)
    exact Node.restored_fit _ e m

theorem repaired_valid (c : Catalog) (distinct : g.uids.Nodup) : (g.repaired c).Valid c := by
  obtain ⟨distinct, defined⟩ := uncommented_resolved c distinct
  exact valid_restoreConnections distinct defined

end ScriptGraph.Graph
