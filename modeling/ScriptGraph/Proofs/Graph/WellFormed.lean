import ScriptGraph.Proofs.Catalog.Distinct
import ScriptGraph.Proofs.Graph.Connections
import ScriptGraph.Proofs.Session.Changes
import ScriptGraph.Proofs.Snapshot.Repaired

/-!
Well-formed graphs. Edits may leave the flow outputs of single blocks in disorder for a moment, until
these are laid out again; everything else about well-formedness holds in between too.
-/

set_option autoImplicit false
set_option relaxedAutoImplicit false

namespace ScriptGraph.Graph

variable {c : Catalog} {g h : Graph} {uid : Uid} {loose : Uid → Prop} {n : Node} {d : Definition}

/-- No two nodes have one uid, every node conforms to a definition of the catalog, and all connections
lead to nodes of the graph. -/
structure WellFormed (c : Catalog) (g : Graph) : Prop where
  distinct : g.uids.Nodup
  conforms : ∀ n ∈ g.nodes, ∃ d, c.find? n.fullName = some d ∧ n.Conforms d
  links : ∀ n ∈ g.nodes, ∀ link, some link ∈ n.links → link.node ∈ g.uids
  flows : ∀ n ∈ g.nodes, ∀ target, some target ∈ n.flows → target ∈ g.uids

/-- A graph is well-formed but for the flow outputs of some nodes. -/
structure Formed (c : Catalog) (loose : Uid → Prop) (g : Graph) : Prop where
  distinct : g.uids.Nodup
  sized : ∀ n ∈ g.nodes, ∃ d, c.find? n.fullName = some d ∧ n.Sized d ∧ (¬loose n.uid → n.Conforms d)
  links : ∀ u link, g.Linked u link → link.node ∈ g.uids
  flows : ∀ u v, g.Leads u v → v ∈ g.uids

theorem WellFormed.formed (formed : g.WellFormed c) (loose : Uid → Prop) : g.Formed c loose := by
  refine ⟨formed.distinct, fun n hn => ?_, ?_, ?_⟩
  · obtain ⟨d, found, conforms⟩ := formed.conforms n hn
    exact ⟨d, found, conforms.sized, fun _ => conforms⟩
  · rintro u link ⟨n, hn, -, listed⟩
    exact formed.links n hn link listed
  · rintro u v ⟨n, hn, -, listed⟩
    exact formed.flows n hn v listed

theorem Formed.wellFormed (formed : g.Formed c loose) (none : ∀ u ∈ g.uids, ¬loose u) :
    g.WellFormed c := by
  refine ⟨formed.distinct, fun n hn => ?_, fun n hn link listed => ?_, fun n hn target listed => ?_⟩
  · obtain ⟨d, found, -, conforms⟩ := formed.sized n hn
    exact ⟨d, found, conforms (none n.uid (uid_mem hn))⟩
  · exact formed.links n.uid link ⟨n, hn, rfl, listed⟩
  · exact formed.flows n.uid target ⟨n, hn, rfl, listed⟩

theorem Formed.of_fewer {loose' : Uid → Prop} (formed : g.Formed c loose) (same : h.uids = g.uids)
    (fewer : h.Fewer g) (sized : ∀ m ∈ h.nodes, ∃ d, c.find? m.fullName = some d ∧ m.Sized d ∧
      (¬loose' m.uid → m.Conforms d)) : h.Formed c loose' := by
  refine ⟨same ▸ formed.distinct, sized, fun u link linked => ?_, fun u v leads => ?_⟩
  · rw [same]
    exact formed.links u link (fewer.links u link linked)
  · rw [same]
    exact formed.flows u v (fewer.flows u v leads)

theorem Formed.tighten (formed : g.Formed c loose) (same : h.uids = g.uids) (fewer : h.Fewer g)
    (conforms : ∀ m ∈ h.nodes, ∃ d, c.find? m.fullName = some d ∧ m.Conforms d) :
    h.WellFormed c := by
  have all : h.Formed c fun _ => False := by
    refine formed.of_fewer same fewer fun m hm => ?_
    obtain ⟨d, found, conforms⟩ := conforms m hm
    exact ⟨d, found, conforms.sized, fun _ => conforms⟩
  exact all.wellFormed fun _ _ => id

/-! ## Laying flows out -/

private theorem relaid_uid (c : Catalog) (n : Node) : (relaid c n).uid = n.uid :=
  (relaid_fewer c n).uid

theorem Formed.relayout (formed : g.Formed c loose) (uid : Uid) :
    (g.relayout c uid).Formed c fun u => loose u ∧ u ≠ uid := by
  refine formed.of_fewer (uids_update (relaid_uid c)) (relayout_fewer g c uid) fun m hm => ?_
  rw [relayout_eq, nodes_update formed.distinct] at hm
  obtain ⟨n, hn, rfl⟩ := List.mem_map.mp hm
  obtain ⟨d, found, sized, conforms⟩ := formed.sized n hn
  split
  · have laid : relaid c n = n.layFlows d := by simp only [relaid, found]
    rw [laid]
    exact ⟨d, found, sized.layFlows_conforms.sized, fun _ => sized.layFlows_conforms⟩
  · rename_i other
    exact ⟨d, found, sized, fun tight => conforms fun isLoose => tight ⟨isLoose, other⟩⟩

theorem Formed.foldl_relayout (formed : g.Formed c loose) (uids : List Uid) :
    (uids.foldl (fun g uid => g.relayout c uid) g).Formed c fun u => loose u ∧ u ∉ uids := by
  induction uids generalizing g loose with
  | nil => exact formed.of_fewer rfl (.refl g) fun m hm => by simpa using formed.sized m hm
  | cons uid uids ih =>
    have rest := ih (formed.relayout uid)
    refine rest.of_fewer rfl (.refl _) fun m hm => ?_
    simpa only [List.mem_cons, not_or, and_assoc] using rest.sized m hm

theorem foldl_relayout_eq (conforms : ∀ n ∈ g.nodes, ∃ d, c.find? n.fullName = some d ∧ n.Conforms d)
    (uids : List Uid) : uids.foldl (fun g uid => g.relayout c uid) g = g := by
  have laid : ∀ n ∈ g.nodes, relaid c n = n := by
    intro n hn
    obtain ⟨d, found, conforms⟩ := conforms n hn
    simp only [relaid, found]
    exact conforms.layFlows_eq
  induction uids with
  | nil => rfl
  | cons uid uids ih => rw [List.foldl_cons, relayout_eq, update_eq_self laid, ih]

theorem uids_relayout (g : Graph) (c : Catalog) (uid : Uid) : (g.relayout c uid).uids = g.uids :=
  uids_update (relaid_uid c)

theorem uids_foldl_relayout (g : Graph) (c : Catalog) (uids : List Uid) :
    (uids.foldl (fun g uid => g.relayout c uid) g).uids = g.uids := by
  induction uids generalizing g with
  | nil => rfl
  | cons uid uids ih => exact (ih _).trans (uids_relayout g c uid)

theorem uids_relayoutBlocks (g : Graph) (c : Catalog) : (g.relayoutBlocks c).uids = g.uids := by
  unfold relayoutBlocks
  split
  · exact uids_mapNodes fun n => by split <;> rfl
  · rfl

theorem Formed.relayoutBlocks (formed : g.Formed c loose) : (g.relayoutBlocks c).WellFormed c := by
  refine formed.tighten (uids_relayoutBlocks g c) (relayoutBlocks_fewer g c) fun m hm => ?_
  have other : ∀ n ∈ g.nodes, n.fullName ≠ Kind.blockName →
      ∃ d, c.find? n.fullName = some d ∧ n.Conforms d := by
    intro n hn name
    obtain ⟨d, found, sized, -⟩ := formed.sized n hn
    refine ⟨d, found, sized.conforms fun block => name ?_⟩
    rwa [Catalog.find?_kind found, Kind.ofName_block_iff] at block
  unfold Graph.relayoutBlocks at hm
  split at hm
  · rename_i d found
    obtain ⟨n, hn, rfl⟩ := List.mem_map.mp hm
    split
    · rename_i block
      obtain ⟨e, found', sized, -⟩ := formed.sized n hn
      obtain rfl : e = d := Option.some.inj (found'.symm.trans (block ▸ found))
      exact ⟨e, found', sized.layFlows_conforms⟩
    · rename_i name
      exact other n hn name
  · rename_i missing
    refine other m hm fun block => ?_
    obtain ⟨d, found, -⟩ := formed.sized m hm
    rw [block, missing] at found
    cases found

/-! ## Changing nodes in place -/

theorem WellFormed.update {change : Node → Node} (formed : g.WellFormed c)
    (fewer : ∀ n, (change n).Fewer n) (conforms : ∀ n ∈ g.nodes, n.uid = uid → ∀ d,
      c.find? n.fullName = some d → n.Conforms d →
        ∃ e, c.find? (change n).fullName = some e ∧ (change n).Conforms e) :
    (g.update uid change).WellFormed c := by
  refine (formed.formed fun _ => False).tighten (uids_update fun n => (fewer n).uid)
    (update_fewer fewer g uid) fun m hm => ?_
  rcases mem_update hm with hm | ⟨n, hn, here, rfl⟩
  · exact formed.conforms m hm
  · obtain ⟨d, found, keeps⟩ := formed.conforms n hn
    exact conforms n hn here d found keeps

theorem WellFormed.mapNodes {change : Node → Node} (formed : g.WellFormed c)
    (fewer : ∀ n, (change n).Fewer n) (conforms : ∀ n ∈ g.nodes, ∀ d,
      c.find? n.fullName = some d → n.Conforms d →
        ∃ e, c.find? (change n).fullName = some e ∧ (change n).Conforms e) :
    (g.mapNodes change).WellFormed c := by
  refine (formed.formed fun _ => False).tighten (uids_mapNodes fun n => (fewer n).uid)
    (mapNodes_fewer fewer g) fun m hm => ?_
  obtain ⟨n, hn, rfl⟩ := List.mem_map.mp hm
  obtain ⟨d, found, keeps⟩ := formed.conforms n hn
  exact conforms n hn d found keeps

theorem WellFormed.reflow {change : Node → Node} (formed : g.WellFormed c)
    (keeps : ∀ n, (change n).uid = n.uid ∧ (change n).fullName = n.fullName ∧
      (change n).links = n.links ∧ (change n).values = n.values ∧
        (change n).flows.length = n.flows.length)
    (flows : ∀ n, ∀ target, some target ∈ (change n).flows → some target ∈ n.flows ∨ target ∈ g.uids) :
    ((g.update uid change).relayout c uid).WellFormed c := by
  have loosened : (g.update uid change).Formed c fun u => u = uid := by
    have same : (g.update uid change).uids = g.uids := uids_update fun n => (keeps n).1
    refine ⟨same ▸ formed.distinct, fun m hm => ?_, ?_, ?_⟩
    · rcases mem_update hm with hm | ⟨n, hn, here, rfl⟩
      · obtain ⟨d, found, conforms⟩ := formed.conforms m hm
        exact ⟨d, found, conforms.sized, fun _ => conforms⟩
      · obtain ⟨d, found, conforms⟩ := formed.conforms n hn
        obtain ⟨uids, names, links, values, length⟩ := keeps n
        refine ⟨d, names ▸ found, ⟨?_, ?_, fun other => ?_⟩, fun tight => ?_⟩
        · exact links ▸ conforms.links
        · exact values ▸ conforms.values
        · exact length.trans (conforms.sized.flows other)
        · exact absurd (uids.trans here) tight
    · rintro u link ⟨m, hm, -, listed⟩
      rw [same]
      rcases mem_update hm with hm | ⟨n, hn, -, rfl⟩
      · exact formed.links m hm link listed
      · rw [(keeps n).2.2.1] at listed
        exact formed.links n hn link listed
    · rintro u v ⟨m, hm, -, listed⟩
      rw [same]
      rcases mem_update hm with hm | ⟨n, hn, -, rfl⟩
      · exact formed.flows m hm v listed
      · exact (flows n v listed).elim (formed.flows n hn v) id
  exact (loosened.relayout uid).wellFormed fun u _ isLoose => isLoose.2 isLoose.1

/-! ## Adding and removing nodes -/

theorem WellFormed.extended (formed : g.WellFormed c) {additions : List Node}
    (distinct : (additions.map Node.uid).Nodup) (new : ∀ n ∈ additions, n.uid ∉ g.uids)
    (sized : ∀ n ∈ additions, ∃ d, c.find? n.fullName = some d ∧ n.Sized d)
    (links : ∀ n ∈ additions, ∀ link, some link ∈ n.links →
      link.node ∈ additions.map Node.uid ∨ link.node ∈ g.uids)
    (flows : ∀ n ∈ additions, ∀ target, some target ∈ n.flows → target ∈ additions.map Node.uid) :
    (g.extended c additions).WellFormed c := by
  have all : ({ g with nodes := g.nodes ++ additions } : Graph).uids =
      g.uids ++ additions.map Node.uid := List.map_append
  have loosened : ({ g with nodes := g.nodes ++ additions } : Graph).Formed c
      fun u => u ∈ additions.map Node.uid := by
    refine ⟨?_, fun m hm => ?_, ?_, ?_⟩
    · rw [all]
      refine List.nodup_append.mpr ⟨formed.distinct, distinct, ?_⟩
      rintro u hu v hv rfl
      obtain ⟨n, hn, rfl⟩ := List.mem_map.mp hv
      exact new n hn hu
    · rcases List.mem_append.mp hm with hm | hm
      · obtain ⟨d, found, conforms⟩ := formed.conforms m hm
        exact ⟨d, found, conforms.sized, fun _ => conforms⟩
      · obtain ⟨d, found, sized⟩ := sized m hm
        exact ⟨d, found, sized, fun tight => absurd (List.mem_map_of_mem hm) tight⟩
    · rintro u link ⟨m, hm, -, listed⟩
      rw [all, List.mem_append]
      rcases List.mem_append.mp hm with hm | hm
      · exact Or.inl (formed.links m hm link listed)
      · exact (links m hm link listed).symm
    · rintro u v ⟨m, hm, -, listed⟩
      rw [all, List.mem_append]
      rcases List.mem_append.mp hm with hm | hm
      · exact Or.inl (formed.flows m hm v listed)
      · exact Or.inr (flows m hm v listed)
  exact (loosened.foldl_relayout (additions.map Node.uid)).wellFormed
    fun u _ isLoose => isLoose.2 isLoose.1

theorem WellFormed.push (formed : g.WellFormed c) (new : n.uid ∉ g.uids)
    (found : c.find? n.fullName = some d) (conforms : n.Conforms d)
    (links : ∀ link, some link ∉ n.links) (flows : ∀ target, some target ∉ n.flows) :
    (g.push n).WellFormed c := by
  have all : (g.push n).uids = g.uids ++ [n.uid] := List.map_append
  have cases : ∀ m ∈ (g.push n).nodes, m ∈ g.nodes ∨ m = n := fun m hm =>
    (List.mem_append.mp hm).imp_right List.mem_singleton.mp
  refine ⟨?_, fun m hm => ?_, fun m hm link listed => ?_, fun m hm target listed => ?_⟩
  · rw [all]
    refine List.nodup_append.mpr ⟨formed.distinct, List.nodup_singleton _, ?_⟩
    rintro u hu v hv rfl
    exact new (List.mem_singleton.mp hv ▸ hu)
  · rcases cases m hm with hm | rfl
    · exact formed.conforms m hm
    · exact ⟨d, found, conforms⟩
  · rcases cases m hm with hm | rfl
    · exact all ▸ List.mem_append_left _ (formed.links m hm link listed)
    · exact absurd listed (links link)
  · rcases cases m hm with hm | rfl
    · exact all ▸ List.mem_append_left _ (formed.flows m hm target listed)
    · exact absurd listed (flows target)

theorem Formed.extract (formed : g.Formed c loose) (uid : Uid) :
    (g.extract uid).Formed c fun _ => True := by
  refine ⟨distinct_extract formed.distinct, fun m hm => ?_, fun u link linked => ?_,
    fun u v leads => ?_⟩
  · obtain ⟨n, hn, rfl⟩ := List.mem_map.mp hm
    obtain ⟨d, found, sized, -⟩ := formed.sized n (List.eraseP_sublist.subset hn)
    refine ⟨d, found, ⟨?_, sized.values, fun other => ?_⟩, fun tight => absurd trivial tight⟩
    · exact (List.length_map _).trans sized.links
    · exact (List.length_map _).trans (sized.flows other)
  · exact mem_uids_extract (formed.links u link ((extract_fewer g uid).links u link linked))
      (extract_links linked)
  · exact mem_uids_extract (formed.flows u v ((extract_fewer g uid).flows u v leads))
      (extract_flows leads)

theorem Formed.foldl_extract (formed : g.Formed c loose) (uids : List Uid) :
    ∃ loose', (uids.foldl Graph.extract g).Formed c loose' := by
  induction uids generalizing g loose with
  | nil => exact ⟨loose, formed⟩
  | cons uid uids ih => exact ih (formed.extract uid)

theorem uncommented_resolved (c : Catalog) (distinct : g.uids.Nodup) :
    (g.uncommented.removeUndefined c).1.uids.Nodup ∧
      ∀ n ∈ (g.uncommented.removeUndefined c).1.nodes, ∃ d, c.find? n.fullName = some d := by
  have uncommented : g.uncommented.uids.Nodup := by
    unfold Graph.uncommented
    generalize Session.comments g = comments
    induction comments generalizing g with
    | nil => exact distinct
    | cons n comments ih => exact ih (distinct_extract distinct)
  exact ⟨uncommented.sublist (List.filter_sublist.map Node.uid),
    fun n hn => Option.isSome_iff_exists.mp (List.mem_filter.mp hn).2⟩

theorem repaired_wellFormed (c : Catalog) (distinct : g.uids.Nodup) : (g.repaired c).WellFormed c := by
  obtain ⟨distinct, defined⟩ := uncommented_resolved c distinct
  have connected := connected_restoreConnections distinct defined
  refine ⟨connected.distinct, fun n hn => ?_, fun n hn link listed => ?_, fun n hn target listed => ?_⟩
  · obtain ⟨m, -, d, found, rfl⟩ := mem_restoreConnections defined hn
    exact ⟨d, found, Node.restored_conforms _ d m⟩
  · obtain ⟨m, -, found, -⟩ := connected.links n hn link listed
    exact find?_uid found ▸ uid_mem (find?_mem found)
  · obtain ⟨m, -, found, -⟩ := connected.flows n hn target listed
    exact find?_uid found ▸ uid_mem (find?_mem found)

end ScriptGraph.Graph
