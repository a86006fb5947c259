import ScriptGraph.Editing.Literal
import ScriptGraph.Proofs.Graph.Lookup
import ScriptGraph.Proofs.Node.Layout

/-!
The connections of a graph as relations. Most changes of nodes add none to those that there are.
-/

set_option autoImplicit false
set_option relaxedAutoImplicit false

namespace ScriptGraph

namespace Node

variable {d : Definition} {n : Node} {uid : Uid}

/-- A node has the uid of another and no connections that the other lacks. -/
structure Fewer (m n : Node) : Prop where
  uid : m.uid = n.uid
  links : ∀ link, some link ∈ m.links → some link ∈ n.links
  flows : ∀ target, some target ∈ m.flows → some target ∈ n.flows

theorem Fewer.refl (n : Node) : Fewer n n := ⟨rfl, fun _ => id, fun _ => id⟩

theorem layFlows_fewer (n : Node) (d : Definition) : Fewer (n.layFlows d) n :=
  ⟨rfl, fun _ => id, fun _ => mem_flows_layFlows⟩

theorem switched_fewer (d : Definition) (n : Node) : Fewer (Graph.switched d n) n :=
  ⟨rfl, fun _ => mem_of_mem_fitted, fun _ => mem_of_mem_laidOut⟩

theorem clearLink_fewer (n : Node) (input : Nat) :
    Fewer { n with links := n.links.set input none } n := by
  refine ⟨rfl, fun link listed => ?_, fun _ => id⟩
  exact (List.mem_or_eq_of_mem_set listed).resolve_right (Option.some_ne_none link)

theorem clearFlow_fewer (n : Node) (port : Nat) :
    Fewer { n with flows := n.flows.set port none } n := by
  refine ⟨rfl, fun _ => id, fun target listed => ?_⟩
  exact (List.mem_or_eq_of_mem_set listed).resolve_right (Option.some_ne_none target)

private theorem mem_map_filter {α : Type} {keeps : α → Bool} {entries : List (Option α)} {entry : α}
    (listed : some entry ∈ entries.map fun other => other.filter keeps) :
    some entry ∈ entries ∧ keeps entry := by
  obtain ⟨other, hother, filtered⟩ := List.mem_map.mp listed
  obtain ⟨rfl, kept⟩ := Option.filter_eq_some_iff.mp filtered
  exact ⟨hother, kept⟩

theorem dropLinks_fewer (uid : Uid) (outputs : Nat) (n : Node) :
    Fewer (Graph.dropLinks uid outputs n) n :=
  ⟨rfl, fun _ listed => (mem_map_filter listed).1, fun _ => id⟩

theorem mem_links_dropLinks {outputs : Nat} {link : Link}
    (listed : some link ∈ (Graph.dropLinks uid outputs n).links) (leads : link.node = uid) :
    link.output < outputs := by
  have kept := (mem_map_filter listed).2
  simpa [leads] using kept

theorem forget_fewer (n : Node) (uid : Uid) : Fewer (n.forget uid) n :=
  ⟨rfl, fun _ listed => (mem_map_filter listed).1, fun _ listed => (mem_map_filter listed).1⟩

theorem mem_links_forget {link : Link} (listed : some link ∈ (n.forget uid).links) :
    link.node ≠ uid :=
  of_decide_eq_true (mem_map_filter listed).2

theorem mem_flows_forget {target : Uid} (listed : some target ∈ (n.forget uid).flows) :
    target ≠ uid :=
  of_decide_eq_true (mem_map_filter listed).2

end Node

namespace Graph

variable {c : Catalog} {g h k : Graph} {uid u v : Uid} {link : Link} {n m : Node}

/-- An input of a node is fed through a link. -/
def Linked (g : Graph) (u : Uid) (link : Link) : Prop :=
  ∃ n ∈ g.nodes, n.uid = u ∧ some link ∈ n.links

/-- A flow output of a node leads to another node. -/
def Leads (g : Graph) (u v : Uid) : Prop :=
  ∃ n ∈ g.nodes, n.uid = u ∧ some v ∈ n.flows

/-- A graph has no connections that another lacks. -/
structure Fewer (h g : Graph) : Prop where
  links : ∀ u link, h.Linked u link → g.Linked u link
  flows : ∀ u v, h.Leads u v → g.Leads u v

theorem Fewer.refl (g : Graph) : Fewer g g := ⟨fun _ _ => id, fun _ _ => id⟩

theorem Fewer.trans (first : Fewer k h) (second : Fewer h g) : Fewer k g :=
  ⟨fun u link linked => second.links u link (first.links u link linked),
    fun u v leads => second.flows u v (first.flows u v leads)⟩

theorem Fewer.of_nodes (fewer : ∀ m ∈ h.nodes, ∃ n ∈ g.nodes, m.Fewer n) : Fewer h g := by
  constructor
  · rintro u link ⟨m, hm, rfl, listed⟩
    obtain ⟨n, hn, less⟩ := fewer m hm
    exact ⟨n, hn, less.uid.symm, less.links link listed⟩
  · rintro u v ⟨m, hm, rfl, listed⟩
    obtain ⟨n, hn, less⟩ := fewer m hm
    exact ⟨n, hn, less.uid.symm, less.flows v listed⟩

/-! ## Changing nodes -/

theorem nodes_update {change : Node → Node} (distinct : g.uids.Nodup) : (g.update uid change).nodes =
    g.nodes.map fun n => if n.uid = uid then change n else n := by
  change updateFirst uid change g.nodes = _
  rw [uids] at distinct
  generalize g.nodes = nodes at distinct ⊢
  induction nodes with
  | nil => rfl
  | cons n nodes ih =>
    rw [List.map_cons, List.nodup_cons] at distinct
    rw [updateFirst, List.map_cons]
    by_cases here : n.uid = uid
    · rw [if_pos here, if_pos here]
      congr 1
      refine (List.map_id nodes).symm.trans (List.map_congr_left fun m hm => ?_)
      refine (if_neg fun same => distinct.1 ?_).symm
      rw [here, ← same]
      exact List.mem_map_of_mem hm
    · rw [if_neg here, if_neg here, ih distinct.2]

private theorem mem_updateFirst {change : Node → Node} {nodes : List Node}
    (listed : m ∈ updateFirst uid change nodes) :
    m ∈ nodes ∨ ∃ n ∈ nodes, n.uid = uid ∧ m = change n := by
  induction nodes with
  | nil => cases listed
  | cons n nodes ih =>
    rw [updateFirst] at listed
    split at listed
    · rename_i here
      rcases List.mem_cons.mp listed with rfl | listed
      · exact Or.inr ⟨n, List.mem_cons_self, here, rfl⟩
      · exact Or.inl (List.mem_cons_of_mem _ listed)
    · rcases List.mem_cons.mp listed with rfl | listed
      · exact Or.inl List.mem_cons_self
      · refine (ih listed).imp (List.mem_cons_of_mem _) ?_
        rintro ⟨n, hn, here⟩
        exact ⟨n, List.mem_cons_of_mem _ hn, here⟩

theorem mem_update {change : Node → Node} (listed : m ∈ (g.update uid change).nodes) :
    m ∈ g.nodes ∨ ∃ n ∈ g.nodes, n.uid = uid ∧ m = change n :=
  mem_updateFirst listed

theorem update_fewer {change : Node → Node} (fewer : ∀ n, (change n).Fewer n) (g : Graph) (uid : Uid) :
    Fewer (g.update uid change) g := by
  refine .of_nodes fun m hm => ?_
  rcases mem_update hm with hm | ⟨n, hn, -, rfl⟩
  · exact ⟨m, hm, .refl m⟩
  · exact ⟨n, hn, fewer n⟩

theorem mapNodes_fewer {change : Node → Node} (fewer : ∀ n, (change n).Fewer n) (g : Graph) :
    Fewer (g.mapNodes change) g := by
  refine .of_nodes fun m hm => ?_
  obtain ⟨n, hn, rfl⟩ := List.mem_map.mp hm
  exact ⟨n, hn, fewer n⟩

theorem fewer_of_sublist (part : h.nodes.Sublist g.nodes) : Fewer h g :=
  .of_nodes fun m hm => ⟨m, part.subset hm, .refl m⟩

/-! ## Adding connections -/

theorem leads_of_push (flows : ∀ target, some target ∉ n.flows) (leads : (g.push n).Leads u v) :
    g.Leads u v := by
  obtain ⟨m, hm, here, listed⟩ := leads
  rcases List.mem_append.mp hm with hm | hm
  · exact ⟨m, hm, here, listed⟩
  · rw [List.mem_singleton.mp hm] at listed
    exact absurd listed (flows v)

theorem linked_of_set {input : Nat} {new : Link} (linked : (g.update uid fun n =>
    { n with links := n.links.set input (some new) }).Linked u link) :
    g.Linked u link ∨ u = uid ∧ link = new := by
  obtain ⟨m, hm, here, listed⟩ := linked
  rcases mem_update hm with hm | ⟨n, hn, there, rfl⟩
  · exact Or.inl ⟨m, hm, here, listed⟩
  · rcases List.mem_or_eq_of_mem_set listed with listed | same
    · exact Or.inl ⟨n, hn, here, listed⟩
    · exact Or.inr ⟨here.symm.trans there, Option.some.inj same⟩

theorem leads_of_set {port : Nat} {target : Uid} (leads : (g.update uid fun n =>
    { n with flows := n.flows.set port (some target) }).Leads u v) :
    g.Leads u v ∨ u = uid ∧ v = target := by
  obtain ⟨m, hm, here, listed⟩ := leads
  rcases mem_update hm with hm | ⟨n, hn, there, rfl⟩
  · exact Or.inl ⟨m, hm, here, listed⟩
  · rcases List.mem_or_eq_of_mem_set listed with listed | same
    · exact Or.inl ⟨n, hn, here, listed⟩
    · exact Or.inr ⟨here.symm.trans there, Option.some.inj same⟩

theorem linked_of_update {change : Node → Node} (linked : (g.update uid change).Linked u link)
    (same : ∀ n, (change n).uid = n.uid ∧ (change n).links = n.links) : g.Linked u link := by
  obtain ⟨m, hm, here, listed⟩ := linked
  rcases mem_update hm with hm | ⟨n, hn, -, rfl⟩
  · exact ⟨m, hm, here, listed⟩
  · exact ⟨n, hn, (same n).1 ▸ here, (same n).2 ▸ listed⟩

theorem leads_of_update {change : Node → Node} (leads : (g.update uid change).Leads u v)
    (same : ∀ n, (change n).uid = n.uid ∧ (change n).flows = n.flows) : g.Leads u v := by
  obtain ⟨m, hm, here, listed⟩ := leads
  rcases mem_update hm with hm | ⟨n, hn, -, rfl⟩
  · exact ⟨m, hm, here, listed⟩
  · exact ⟨n, hn, (same n).1 ▸ here, (same n).2 ▸ listed⟩

/-! ## Laying flows out -/

def relaid (c : Catalog) (n : Node) : Node :=
  match c.find? n.fullName with
  | some d => n.layFlows d
  | none => n

theorem relayout_eq (g : Graph) (c : Catalog) (uid : Uid) :
    g.relayout c uid = g.update uid (relaid c) := rfl

theorem relaid_fewer (c : Catalog) (n : Node) : (relaid c n).Fewer n := by
  unfold relaid
  split
  · exact n.layFlows_fewer _
  · exact .refl n

theorem relayout_fewer (g : Graph) (c : Catalog) (uid : Uid) : Fewer (g.relayout c uid) g :=
  update_fewer (relaid_fewer c) g uid

theorem foldl_relayout_fewer (g : Graph) (c : Catalog) (uids : List Uid) :
    Fewer (uids.foldl (fun g uid => g.relayout c uid) g) g := by
  induction uids generalizing g with
  | nil => exact .refl g
  | cons uid uids ih => exact (ih _).trans (relayout_fewer g c uid)

theorem relayoutBlocks_fewer (g : Graph) (c : Catalog) : Fewer (g.relayoutBlocks c) g := by
  unfold relayoutBlocks
  split
  · refine mapNodes_fewer (fun n => ?_) g
    split
    · exact n.layFlows_fewer _
    · exact .refl n
  · exact .refl g

/-! ## Removing nodes -/

theorem extract_fewer (g : Graph) (uid : Uid) : Fewer (g.extract uid) g :=
  (mapNodes_fewer (fun n => n.forget_fewer uid) _).trans (fewer_of_sublist List.eraseP_sublist)

theorem foldl_extract_fewer (g : Graph) (uids : List Uid) : Fewer (uids.foldl extract g) g := by
  induction uids generalizing g with
  | nil => exact .refl g
  | cons uid uids ih => exact (ih _).trans (extract_fewer g uid)

theorem uids_extract (g : Graph) (uid : Uid) : (g.extract uid).uids = (g.remove uid).uids :=
  uids_mapNodes fun _ => rfl

theorem distinct_extract (distinct : g.uids.Nodup) : (g.extract uid).uids.Nodup := by
  rw [uids_extract]
  exact distinct.sublist (List.eraseP_sublist.map Node.uid)

theorem extract_links (linked : (g.extract uid).Linked u link) : link.node ≠ uid := by
  obtain ⟨m, hm, -, listed⟩ := linked
  obtain ⟨n, -, rfl⟩ := List.mem_map.mp hm
  exact Node.mem_links_forget listed

theorem extract_flows (leads : (g.extract uid).Leads u v) : v ≠ uid := by
  obtain ⟨m, hm, -, listed⟩ := leads
  obtain ⟨n, -, rfl⟩ := List.mem_map.mp hm
  exact Node.mem_flows_forget listed

theorem mem_uids_extract (listed : v ∈ g.uids) (other : v ≠ uid) : v ∈ (g.extract uid).uids := by
  rw [uids_extract]
  obtain ⟨n, hn, rfl⟩ := List.mem_map.mp listed
  exact List.mem_map_of_mem ((List.mem_eraseP_of_neg (by simpa using other)).mpr hn)

end Graph

end ScriptGraph
