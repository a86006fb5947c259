import ScriptGraph.Proofs.Graph.Keys
import ScriptGraph.Proofs.Graph.Reached
import ScriptGraph.Proofs.Session.WellFormed
import ScriptGraph.Proofs.Snapshot.Untouched

/-!
The removal of nodes. Taking nodes out one after the other, each with all that is bound to it, comes to
taking all of them out at once: the other nodes stay in order, without their links and flows to those that
are gone, and with the remaining targets of blocks moved together. So it does not matter in which order
nodes are removed, nor how often one is named.
-/

set_option autoImplicit false
set_option relaxedAutoImplicit false

namespace ScriptGraph

/-! ## What is left of a node -/

namespace Node

variable {n : Node} {d : Definition} {uid : Uid} {gone more : List Uid}

/-- The node without its links and flows to nodes that are gone. -/
def cleared (gone : List Uid) (n : Node) : Node :=
  { n with
    links := n.links.map fun link => link.filter fun l => l.node ∉ gone
    flows := n.flows.map fun flow => flow.filter fun target => target ∉ gone }

/-- What is left of a node when others are gone; a block has its remaining targets moved together. -/
def without (gone : List Uid) (n : Node) : Node := (n.cleared gone).compacted

private theorem map_filter_eq {α : Type} {keep : α → Bool} {entries : List (Option α)}
    (all : ∀ entry, some entry ∈ entries → keep entry) :
    entries.map (fun entry => entry.filter keep) = entries := by
  refine (List.map_congr_left fun entry listed => ?_).trans (List.map_id entries)
  cases entry with
  | none => rfl
  | some entry => exact Option.filter_some_pos (all entry listed)

theorem cleared_of_flows (flows : ∀ target, some target ∈ n.flows → target ∉ gone) :
    n.cleared gone = { n with links := (n.cleared gone).links } := by
  have same : (n.cleared gone).flows = n.flows :=
    map_filter_eq fun target listed => decide_eq_true (flows target listed)
  calc n.cleared gone
    _ = { n with links := (n.cleared gone).links, flows := (n.cleared gone).flows } := rfl
    _ = { n with links := (n.cleared gone).links } := by rw [same]

theorem cleared_nil (n : Node) : n.cleared [] = n := by
  have links : (n.cleared []).links = n.links :=
    map_filter_eq fun _ _ => decide_eq_true List.not_mem_nil
  rw [cleared_of_flows fun _ _ => List.not_mem_nil, links]

theorem forget_eq_cleared (n : Node) (uid : Uid) : n.forget uid = n.cleared [uid] := by
  simp only [forget, cleared, List.mem_singleton]

theorem cleared_cleared (gone more : List Uid) (n : Node) :
    (n.cleared gone).cleared more = n.cleared (gone ++ more) := by
  simp only [cleared, List.map_map, Function.comp_def, Option.filter_filter, List.mem_append, not_or,
    Bool.decide_and]

theorem cleared_echoes (gone : List Uid) (n : Node) : (n.cleared gone).Echoes n := ⟨rfl, rfl, rfl⟩

theorem compacted_echoes (n : Node) : n.compacted.Echoes n := by
  rw [compacted]
  split
  · exact ⟨rfl, rfl, rfl⟩
  · exact .refl n

theorem without_echoes (gone : List Uid) (n : Node) : (n.without gone).Echoes n :=
  (compacted_echoes _).trans (cleared_echoes gone n)

theorem targets_cleared (gone : List Uid) (n : Node) :
    (n.cleared gone).targets = n.targets.filter fun target => target ∉ gone := by
  rw [targets, targets, cleared, List.filterMap_map, List.filter_filterMap]
  rfl

private theorem compacted_cleared_compacted (gone : List Uid) (n : Node) :
    (n.compacted.cleared gone).compacted = (n.cleared gone).compacted := by
  by_cases block : n.kind = .block
  · have targets : (n.compacted.cleared gone).targets = (n.cleared gone).targets := by
      rw [targets_cleared, targets_compacted, targets_cleared]
    have between : (n.compacted.cleared gone).kind = .block := by
      rw [compacted_block block]
      exact block
    have before : (n.cleared gone).kind = .block := block
    rw [compacted_block between, compacted_block before, targets, compacted_block block]
    rfl
  · rw [compacted_other block]

theorem without_without (gone more : List Uid) (n : Node) :
    (n.without gone).without more = n.without (gone ++ more) := by
  rw [without, without, compacted_cleared_compacted, cleared_cleared, without]

theorem Conforms.compacted_eq (conforms : n.Conforms d) (kind : d.kind = n.kind) : n.compacted = n := by
  rw [← conforms.sized.layFlows_eq kind, conforms.layFlows_eq]

/-- How a node is left when others are gone: without its links and flows to them, and otherwise as it was.
A block that has lost a target has the others, in order, before its free outputs. -/
structure Left (gone : List Uid) (n m : Node) : Prop where
  same : m = { n with links := m.links, flows := m.flows }
  links : m.links = n.links.map fun link => link.filter fun l => l.node ∉ gone
  flows : n.kind ≠ .block ∨ (∀ target, some target ∈ n.flows → target ∉ gone) →
    m.flows = n.flows.map fun flow => flow.filter fun target => target ∉ gone
  block : n.kind = .block → m.flows = packed (n.targets.filter fun target => target ∉ gone)

theorem Conforms.without_left (conforms : n.Conforms d) (kind : d.kind = n.kind) (gone : List Uid) :
    n.Left gone (n.without gone) := by
  by_cases block : n.kind = .block
  · have before : (n.cleared gone).kind = .block := block
    have whole : n.without gone = { n.cleared gone with flows := packed (n.cleared gone).targets } :=
      compacted_block before
    refine ⟨?_, ?_, ?_, ?_⟩
    · rw [whole]
      rfl
    · rw [whole]
      rfl
    · intro kept
      have flows := kept.resolve_left fun other => other block
      have still : (n.cleared gone).Conforms d := by
        rw [cleared_of_flows flows]
        exact ⟨(List.length_map _).trans conforms.links, conforms.values, conforms.flows,
          conforms.compact⟩
      rw [without, still.compacted_eq kind]
      rfl
    · intro _
      rw [whole, targets_cleared]
  · have same : n.without gone = n.cleared gone := compacted_other block
    rw [same]
    exact ⟨rfl, rfl, fun _ => rfl, fun here => absurd here block⟩

end Node

/-! ## What is left of a graph -/

namespace Graph

variable {c : Catalog} {g h : Graph} {n : Node} {uid u : Uid} {uids gone more removed : List Uid}
  {loose : Uid → Prop}

def without (gone : List Uid) (g : Graph) : Graph :=
  (g.keeping fun n => n.uid ∉ gone).mapNodes (Node.without gone)

theorem mem_without {m : Node} : m ∈ (g.without gone).nodes ↔
    ∃ n ∈ g.nodes, n.uid ∉ gone ∧ n.without gone = m := by
  rw [without, mapNodes, keeping, List.mem_map]
  simp only [List.mem_filter, decide_eq_true_iff, and_assoc]

private theorem keeping_mapNodes {keep : Node → Bool} (change : Node → Node)
    (same : ∀ n, keep (change n) = keep n) (g : Graph) :
    (g.mapNodes change).keeping keep = (g.keeping keep).mapNodes change := by
  simp only [keeping, mapNodes, List.filter_map, Function.comp_def, same]

private theorem mapNodes_mapNodes (first second : Node → Node) (g : Graph) :
    (g.mapNodes first).mapNodes second = g.mapNodes fun n => second (first n) := by
  simp only [mapNodes, List.map_map, Function.comp_def]

theorem without_without (gone more : List Uid) (g : Graph) :
    (g.without gone).without more = g.without (gone ++ more) := by
  have uid : ∀ n : Node, (n.without gone).uid = n.uid := fun n => (n.without_echoes gone).uid
  rw [without, without, keeping_mapNodes (Node.without gone) fun n => by rw [uid], keeping_keeping,
    mapNodes_mapNodes, without]
  simp only [Node.without_without, List.mem_append, not_or, Bool.decide_and, Bool.and_comm]

theorem extract_eq (distinct : g.uids.Nodup) (uid : Uid) :
    g.extract uid = (g.keeping fun n => n.uid ≠ uid).mapNodes (Node.cleared [uid]) := by
  have removes : g.remove uid = g.keeping fun n => n.uid ≠ uid := by
    rw [keeping, ← nodes_remove distinct]
    rfl
  rw [extract, removes, forget]
  congr 1
  funext n
  exact n.forget_eq_cleared uid

theorem foldl_extract_eq (distinct : g.uids.Nodup) (gone : List Uid) :
    gone.foldl extract g = (g.keeping fun n => n.uid ∉ gone).mapNodes (Node.cleared gone) := by
  induction gone generalizing g with
  | nil =>
    have all : g.keeping (fun n => n.uid ∉ ([] : List Uid)) = g := by
      simp [keeping]
    have same : Node.cleared [] = id := funext Node.cleared_nil
    rw [all, same, mapNodes, List.map_id]
    rfl
  | cons uid gone ih =>
    have both : (fun n : Node => decide (n.uid ∉ gone) && decide (n.uid ≠ uid)) =
        fun n => decide (n.uid ∉ uid :: gone) := by
      funext n
      simp [Bool.and_comm]
    rw [List.foldl_cons, ih (distinct_extract distinct), extract_eq distinct,
      keeping_mapNodes (Node.cleared [uid]) fun _ => rfl, keeping_keeping, mapNodes_mapNodes, both]
    simp only [Node.cleared_cleared, List.singleton_append]

theorem Formed.relayoutBlocks_eq (formed : g.Formed c loose) : g.relayoutBlocks c = g.compacted := by
  have laid : ∀ n ∈ g.nodes, ∀ d, c.find? n.fullName = some d → n.layFlows d = n.compacted := by
    intro n listed d found
    obtain ⟨e, known, sized, -⟩ := formed.sized n listed
    obtain rfl : d = e := Option.some.inj (found.symm.trans known)
    exact sized.layFlows_eq (Catalog.find?_kind found)
  have apart : ∀ n : Node, n.fullName ≠ Kind.blockName → n.compacted = n := by
    intro n other
    exact Node.compacted_other fun block => other (Kind.ofName_block_iff.mp block)
  unfold Graph.relayoutBlocks
  cases found : c.find? Kind.blockName with
  | some d =>
    refine congrArg (fun nodes => { g with nodes := nodes }) (List.map_congr_left fun n listed => ?_)
    split
    · rename_i block
      exact laid n listed d (block ▸ found)
    · rename_i other
      exact (apart n other).symm
  | none =>
    have same : g.nodes.map Node.compacted = g.nodes := by
      refine (List.map_congr_left fun n listed => apart n fun block => ?_).trans (List.map_id _)
      obtain ⟨d, known, -⟩ := formed.sized n listed
      rw [block, found] at known
      cases known
    rw [compacted, mapNodes, same]

theorem WellFormed.without_nil (formed : g.WellFormed c) : g.without [] = g := by
  have all : g.keeping (fun n => n.uid ∉ ([] : List Uid)) = g := by
    simp [keeping]
  have same : g.nodes.map (Node.without []) = g.nodes := by
    refine (List.map_congr_left fun n listed => ?_).trans (List.map_id _)
    obtain ⟨d, found, conforms⟩ := formed.conforms n listed
    rw [Node.without, n.cleared_nil, conforms.compacted_eq (Catalog.find?_kind found), id]
  rw [without, all, Graph.mapNodes, same]

/-! ### One node after the other -/

theorem removeNode_eq (formed : g.WellFormed c) (found : g.find? uid = some n) :
    g.removeNode c uid = .ok (g.doomed n, g.without (g.doomed n)) := by
  have out : ((g.doomed n).foldl extract g).relayoutBlocks c = g.without (g.doomed n) := by
    obtain ⟨loose, rest⟩ := (formed.formed fun _ => False).foldl_extract (g.doomed n)
    rw [rest.relayoutBlocks_eq, foldl_extract_eq formed.distinct, compacted, mapNodes_mapNodes]
    rfl
  rw [removeNode, get, found, ← out]
  rfl

theorem WellFormed.doomed_out (formed : g.WellFormed c) (found : g.find? uid = some n) :
    (g.without (g.doomed n)).WellFormed c := by
  obtain ⟨k, found', doomed, same⟩ := removeNode_eq_ok (removeNode_eq formed found)
  obtain ⟨loose, rest⟩ := (formed.formed fun _ => False).foldl_extract (g.doomed n)
  rw [same]
  exact rest.relayoutBlocks

theorem target?_of_isVariable (declares : n.isVariable) : n.target? = none := by
  have kind : n.kind = .variable := of_decide_eq_true declares
  rw [Node.target?, Node.access?, kind]
  rfl

theorem mem_doomed : u ∈ g.doomed n ↔
    u = n.uid ∨ n.isVariable ∧ ∃ m ∈ g.nodes, m.target? = some n.uid ∧ m.uid = u := by
  rw [doomed, List.mem_cons]
  refine or_congr_right ?_
  by_cases declares : n.isVariable
  · rw [if_pos declares, and_iff_right declares, dependents, List.mem_map]
    simp only [List.mem_filter, decide_eq_true_iff, and_assoc]
  · rw [if_neg declares]
    exact iff_of_false List.not_mem_nil fun both => declares both.1

theorem doomed_nodup (distinct : g.uids.Nodup) (listed : n ∈ g.nodes) : (g.doomed n).Nodup := by
  rw [doomed, List.nodup_cons]
  by_cases declares : n.isVariable
  · rw [if_pos declares]
    refine ⟨?_, distinct.sublist (List.filter_sublist.map Node.uid)⟩
    intro bound
    obtain ⟨m, there, same⟩ := List.mem_map.mp bound
    obtain ⟨there, target⟩ := List.mem_filter.mp there
    obtain rfl : m = n := List.inj_on_of_nodup_map distinct there listed same
    rw [target?_of_isVariable declares] at target
    cases of_decide_eq_true target
  · rw [if_neg declares]
    exact ⟨List.not_mem_nil, List.nodup_nil⟩

/-- The nodes that go when nodes are removed: those, and what is bound to a variable among them. -/
def Goes (g : Graph) (uids : List Uid) (uid : Uid) : Prop :=
  ∃ n ∈ g.nodes, n.uid = uid ∧
    (uid ∈ uids ∨ ∃ v ∈ g.nodes, v.isVariable ∧ v.uid ∈ uids ∧ n.target? = some v.uid)

theorem goes_nil : ¬g.Goes [] uid := by
  rintro ⟨n, -, -, absent | ⟨v, -, -, absent, -⟩⟩
  · exact List.not_mem_nil absent
  · exact List.not_mem_nil absent

theorem goes_congr {others : List Uid} (same : ∀ u, u ∈ others ↔ u ∈ uids) :
    g.Goes others uid ↔ g.Goes uids uid := by
  simp only [Goes, same]

theorem goes_cons_absent (absent : u ∉ g.uids) : g.Goes (u :: uids) uid ↔ g.Goes uids uid := by
  have other : ∀ n ∈ g.nodes, n.uid ∈ u :: uids ↔ n.uid ∈ uids := by
    intro n listed
    rw [List.mem_cons, or_iff_right]
    rintro rfl
    exact absent (uid_mem listed)
  constructor
  · rintro ⟨n, listed, rfl, named | ⟨v, there, declares, named, target⟩⟩
    · exact ⟨n, listed, rfl, .inl ((other n listed).mp named)⟩
    · exact ⟨n, listed, rfl, .inr ⟨v, there, declares, (other v there).mp named, target⟩⟩
  · rintro ⟨n, listed, rfl, named | ⟨v, there, declares, named, target⟩⟩
    · exact ⟨n, listed, rfl, .inl ((other n listed).mpr named)⟩
    · exact ⟨n, listed, rfl, .inr ⟨v, there, declares, (other v there).mpr named, target⟩⟩

theorem goes_cons (distinct : g.uids.Nodup) (found : g.find? u = some n) :
    g.Goes (u :: uids) uid ↔ uid ∈ g.doomed n ∨ (g.without (g.doomed n)).Goes uids uid := by
  have here : n.uid = u := find?_uid found
  have first : n ∈ g.nodes := find?_mem found
  constructor
  · rintro ⟨m, listed, rfl, goes⟩
    by_cases doomed : m.uid ∈ g.doomed n
    · exact .inl doomed
    have left : m.without (g.doomed n) ∈ (g.without (g.doomed n)).nodes :=
      mem_without.mpr ⟨m, listed, doomed, rfl⟩
    have echoes := m.without_echoes (g.doomed n)
    refine .inr ⟨_, left, echoes.uid, ?_⟩
    rcases goes with named | ⟨v, there, declares, named, target⟩
    · refine .inl ((List.mem_cons.mp named).resolve_left fun same => doomed ?_)
      exact mem_doomed.mpr (.inl (same.trans here.symm))
    · have other : v ≠ n := by
        rintro rfl
        exact doomed (mem_doomed.mpr (.inr ⟨declares, m, listed, target, rfl⟩))
      have spared : v.uid ∉ g.doomed n := by
        intro goes
        rcases mem_doomed.mp goes with same | ⟨-, k, alsoThere, bound, same⟩
        · exact other (List.inj_on_of_nodup_map distinct there first same)
        · -- A variable is bound to nothing.
          obtain rfl : k = v := List.inj_on_of_nodup_map distinct alsoThere there same
          rw [target?_of_isVariable declares] at bound
          cases bound
      have stays := v.without_echoes (g.doomed n)
      refine .inr ⟨_, mem_without.mpr ⟨v, there, spared, rfl⟩, ?_, ?_, ?_⟩
      · rw [stays.isVariable]
        exact declares
      · rw [stays.uid]
        refine (List.mem_cons.mp named).resolve_left fun same => other ?_
        exact List.inj_on_of_nodup_map distinct there first (same.trans here.symm)
      · rw [stays.uid, echoes.target?]
        exact target
  · rintro (doomed | ⟨m, left, rfl, goes⟩)
    · rcases mem_doomed.mp doomed with rfl | ⟨declares, m, listed, target, rfl⟩
      · exact ⟨n, first, rfl, .inl (here ▸ List.mem_cons_self)⟩
      · exact ⟨m, listed, rfl, .inr ⟨n, first, declares, here ▸ List.mem_cons_self, target⟩⟩
    · obtain ⟨k, listed, -, rfl⟩ := mem_without.mp left
      have echoes := k.without_echoes (g.doomed n)
      rw [echoes.uid, echoes.target?] at goes
      refine ⟨k, listed, echoes.uid.symm, ?_⟩
      rw [echoes.uid]
      rcases goes with named | ⟨w, left, declares, named, target⟩
      · exact .inl (List.mem_cons_of_mem u named)
      · obtain ⟨v, there, -, rfl⟩ := mem_without.mp left
        have stays := v.without_echoes (g.doomed n)
        rw [stays.uid] at named target
        exact .inr ⟨v, there, stays.isVariable ▸ declares, List.mem_cons_of_mem u named, target⟩

/-- What removing a list of nodes comes to. -/
structure Removal (g : Graph) (uids removed : List Uid) : Prop where
  once : removed.Nodup
  goes : ∀ uid, uid ∈ removed ↔ g.Goes uids uid

theorem Removal.perm {others also : List Uid} (removal : g.Removal uids removed)
    (other : g.Removal others also) (same : ∀ u, u ∈ others ↔ u ∈ uids) : also.Perm removed := by
  refine (List.perm_ext_iff_of_nodup other.once removal.once).mpr fun uid => ?_
  rw [other.goes, goes_congr same, removal.goes]

theorem without_congr (same : ∀ u, u ∈ more ↔ u ∈ gone) : g.without more = g.without gone := by
  have left : Node.without more = Node.without gone := by
    funext n
    simp only [Node.without, Node.cleared, same]
  simp only [without, left, same]

theorem removeEach_removal (formed : g.WellFormed c) (uids : List Uid) :
    g.Removal uids (g.removeEach c uids).1 ∧
      (g.removeEach c uids).2 = g.without (g.removeEach c uids).1 := by
  induction uids generalizing g with
  | nil =>
    refine ⟨⟨List.nodup_nil, fun uid => iff_of_false List.not_mem_nil goes_nil⟩, ?_⟩
    exact formed.without_nil.symm
  | cons u uids ih =>
    cases found : g.find? u with
    | none =>
      have absent : u ∉ g.uids := by
        intro listed
        obtain ⟨n, there⟩ := find?_isSome_of_mem listed
        rw [found] at there
        cases there
      have passed : g.removeEach c (u :: uids) = g.removeEach c uids := by
        have fails : g.removeNode c u = .error (.absentNode u) := by
          rw [removeNode, get, found]
          rfl
        rw [removeEach, fails]
      obtain ⟨removal, left⟩ := ih formed
      rw [passed]
      refine ⟨⟨removal.once, fun uid => ?_⟩, left⟩
      rw [goes_cons_absent absent]
      exact removal.goes uid
    | some n =>
      obtain ⟨removal, left⟩ := ih (formed.doomed_out found)
      rw [removeEach, removeNode_eq formed found]
      refine ⟨⟨?_, fun uid => ?_⟩, ?_⟩
      · refine List.nodup_append.mpr ⟨doomed_nodup formed.distinct (find?_mem found), removal.once, ?_⟩
        rintro uid doomed also later rfl
        -- What has gone is not there to go again.
        obtain ⟨m, there, same, -⟩ := (removal.goes uid).mp later
        obtain ⟨k, -, spared, rfl⟩ := mem_without.mp there
        rw [(k.without_echoes _).uid] at same
        exact spared (same ▸ doomed)
      · rw [List.mem_append, removal.goes, goes_cons formed.distinct found]
      · exact left.trans (without_without _ _ g)

end Graph

/-! ## Sessions -/

namespace Session

/-- Removing nodes from a session with a well-formed graph removes exactly those that are there and what
is bound to variables among them, each once. The others stay, in order, without what led to those that
are gone. Naming the same nodes in another order, or more than once, leaves the same session. -/
theorem removeNodes_exact {s : Session} (formed : s.graph.WellFormed s.catalog)
    (ready : s.repairing = false) (uids : List Uid) :
    ∃ removed, s.removeNodes uids =
        (.ok removed, { s with
          graph := s.graph.without removed
          dirty := s.dirty || !removed.isEmpty }) ∧
      s.graph.Removal uids removed ∧
      (∀ n ∈ s.graph.nodes, n.Left removed (n.without removed)) ∧
      ∀ others, (∀ uid, uid ∈ others ↔ uid ∈ uids) → ∃ also, also.Perm removed ∧
        s.removeNodes others = (.ok also, (s.removeNodes uids).2) := by
  have runs : ∀ uids, ∃ removed, s.graph.Removal uids removed ∧ s.removeNodes uids =
      (.ok removed, { s with
        graph := s.graph.without removed
        dirty := s.dirty || !removed.isEmpty }) := by
    intro uids
    obtain ⟨removal, left⟩ := Graph.removeEach_removal formed uids.eraseDups
    have named : ∀ uid, uid ∈ uids.eraseDups ↔ uid ∈ uids := fun uid => List.mem_eraseDups
    refine ⟨_, ⟨removal.once, fun uid => (removal.goes uid).trans (Graph.goes_congr named)⟩, ?_⟩
    generalize outcome : s.graph.removeEach s.catalog uids.eraseDups = result at left ⊢
    obtain ⟨removed, graph⟩ := result
    cases removed with
    | nil =>
      rw [removeNodes, outcome, formed.without_nil]
      simp
    | cons uid removed =>
      rw [removeNodes, outcome]
      obtain rfl : graph = s.graph.without (uid :: removed) := left
      simp only [adoptWith, editing, ready, Bool.false_eq_true, if_false, touched, List.isEmpty_cons,
        Bool.not_false, Bool.or_true]
  obtain ⟨removed, removal, outcome⟩ := runs uids
  refine ⟨removed, outcome, removal, ?_, ?_⟩
  · intro n listed
    obtain ⟨d, found, conforms⟩ := formed.conforms n listed
    exact conforms.without_left (Catalog.find?_kind found) removed
  intro others same
  obtain ⟨also, other, alike⟩ := runs others
  have perm : also.Perm removed := removal.perm other same
  refine ⟨also, perm, ?_⟩
  have graph : s.graph.without also = s.graph.without removed :=
    Graph.without_congr fun uid => perm.mem_iff
  have empty : also.isEmpty = removed.isEmpty := by
    rw [Bool.eq_iff_iff, List.isEmpty_iff, List.isEmpty_iff]
    exact ⟨fun none => by rw [none] at perm; exact List.nil_perm.mp perm,
      fun none => by rw [none] at perm; exact List.perm_nil.mp perm⟩
  rw [alike, outcome, graph, empty]

/-- A counter that is read and set, and a block that leads to what sets it and to another block. -/
def tallied : Session := (create Catalog.intrinsic .default (.marks 'a')).after [
  .addVariable int32Type "count" false,
  .addAccess .get "aa" .origin,
  .addAccess .set "aa" .origin,
  .addNode Kind.blockName .origin,
  .addNode Kind.blockName .origin,
  .connectFlow "aaaaa" 0 "aaaa",
  .connectFlow "aaaaa" 1 "aaaaaa"]

/-- The node that sets the counter goes first or with the counter, and what is left is the same. -/
theorem removeNodes_exact_tallied :
    (tallied.removeNodes ["aaaa", "aa", "aa"]).1 = .ok ["aaaa", "aa", "aaa"] ∧
    (tallied.removeNodes ["aaaa", "aa", "aa"]).2.graph.nodes.map (fun n => (n.uid, n.flows)) =
      [("aaaaa", [some "aaaaaa", none]), ("aaaaaa", [none, none])] ∧
    ∃ also, also.Perm ["aaaa", "aa", "aaa"] ∧ tallied.removeNodes ["aa", "aaaa"] =
      (.ok also, (tallied.removeNodes ["aaaa", "aa", "aa"]).2) := by
  have begun : (create Catalog.intrinsic .default (.marks 'a')).Begun Catalog.intrinsic
      fun asset => asset.graph.uids.Nodup :=
    .created .default (Supply.marks_fresh fun _ listed => absurd listed List.not_mem_nil)
  obtain ⟨catalog, sound⟩ := begun.after_sound Catalog.intrinsic_distinct _
  have runs : tallied.repairing = false ∧
      (tallied.removeNodes ["aaaa", "aa", "aa"]).1 = .ok ["aaaa", "aa", "aaa"] ∧
      (tallied.removeNodes ["aaaa", "aa", "aa"]).2.graph.nodes.map (fun n => (n.uid, n.flows)) =
        [("aaaaa", [some "aaaaaa", none]), ("aaaaaa", [none, none])] := by
    rw [tallied, Catalog.intrinsic_eq]
    decide +kernel
  obtain ⟨ready, gives, left⟩ := runs
  obtain ⟨removed, outcome, -, -, any⟩ := removeNodes_exact (s := tallied)
    (by rw [tallied, catalog]; exact sound.formed) ready ["aaaa", "aa", "aa"]
  obtain rfl : removed = ["aaaa", "aa", "aaa"] := by
    rw [outcome] at gives
    exact Except.ok.inj gives
  refine ⟨gives, left, any ["aa", "aaaa"] fun uid => ?_⟩
  simp [or_comm]

end Session

end ScriptGraph
