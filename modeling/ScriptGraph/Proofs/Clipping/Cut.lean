import ScriptGraph.Clipping.Cut
import ScriptGraph.Proofs.Graph.Keys
import ScriptGraph.Proofs.Reordering.Graph
import ScriptGraph.Proofs.Snapshot.Unplaced

/-!
What is cut out of a graph. Nodes are copied as they are but for their places, and a clipping of all
nodes of a graph is the graph with the variables that are bound first.
-/

set_option autoImplicit false
set_option relaxedAutoImplicit false

namespace ScriptGraph.Graph

variable {c : Catalog} {g h : Graph} {m : Node}

/-! ## Bound variables -/

theorem mem_boundNodes {seen : List Uid} {nodes : List Node} (listed : m ∈ g.boundNodes seen nodes) :
    m.uid ∉ seen ∧ ∃ n ∈ nodes, n.target?.bind g.find? = some m := by
  induction nodes generalizing seen with
  | nil => exact absurd listed List.not_mem_nil
  | cons n nodes ih =>
    have later : (m.uid ∉ seen ∧ ∃ k ∈ nodes, k.target?.bind g.find? = some m) →
        m.uid ∉ seen ∧ ∃ k ∈ n :: nodes, k.target?.bind g.find? = some m := by
      rintro ⟨new, k, hk, bound⟩
      exact ⟨new, k, List.mem_cons_of_mem n hk, bound⟩
    rw [boundNodes] at listed
    split at listed
    · exact later (ih listed)
    · rename_i target bound
      split at listed
      · exact later (ih listed)
      · rename_i new
        rcases List.mem_cons.mp listed with rfl | listed
        · exact ⟨fun seen => new (List.contains_iff_mem.mpr seen), n, List.mem_cons_self, bound⟩
        · obtain ⟨new, rest⟩ := ih listed
          exact later ⟨fun seen => new (List.mem_cons_of_mem _ seen), rest⟩

theorem mem_boundNodes_of_target {seen : List Uid} {nodes : List Node} {n : Node} (listed : n ∈ nodes)
    (bound : n.target?.bind g.find? = some m) : m.uid ∈ seen ∨ m ∈ g.boundNodes seen nodes := by
  induction nodes generalizing seen with
  | nil => exact absurd listed List.not_mem_nil
  | cons k nodes ih =>
    rw [boundNodes]
    rcases List.mem_cons.mp listed with rfl | listed
    · rw [bound]
      dsimp only
      split
      · rename_i known
        exact .inl (List.contains_iff_mem.mp known)
      · exact .inr List.mem_cons_self
    · split
      · exact ih listed
      · rename_i target taken
        split
        · exact ih listed
        · have rest : m.uid ∈ target.uid :: seen ∨ m ∈ g.boundNodes (target.uid :: seen) nodes :=
            ih listed
          rcases rest with known | later
          · rcases List.mem_cons.mp known with same | known
            · obtain ⟨u, -, found⟩ := Option.bind_eq_some_iff.mp bound
              obtain ⟨v, -, there⟩ := Option.bind_eq_some_iff.mp taken
              have one : u = v := (find?_uid found).symm.trans (same.trans (find?_uid there))
              subst one
              cases found.symm.trans there
              exact .inr List.mem_cons_self
            · exact .inl known
          · exact .inr (List.mem_cons_of_mem _ later)

theorem boundNodes_subset {seen : List Uid} {nodes : List Node}
    (listed : m ∈ g.boundNodes seen nodes) : m ∈ g.nodes := by
  obtain ⟨-, n, -, bound⟩ := mem_boundNodes listed
  obtain ⟨uid, -, found⟩ := Option.bind_eq_some_iff.mp bound
  exact find?_mem found

theorem boundNodes_distinct (seen : List Uid) (nodes : List Node) :
    ((g.boundNodes seen nodes).map Node.uid).Nodup := by
  induction nodes generalizing seen with
  | nil => exact List.nodup_nil
  | cons n nodes ih =>
    rw [boundNodes]
    split
    · exact ih seen
    · rename_i target bound
      split
      · exact ih seen
      · refine List.nodup_cons.mpr ⟨fun listed => ?_, ih _⟩
        obtain ⟨m, hm, same⟩ := List.mem_map.mp listed
        exact (mem_boundNodes hm).1 (same ▸ List.mem_cons_self)

/-! ## Any selection -/

private theorem mem_moved {center : Position} {taken nodes : List Node}
    (listed : m ∈ moved center taken nodes) :
    m ∈ taken ∨ ∃ n ∈ nodes, m = { n with position := n.position - center } := by
  induction nodes generalizing taken with
  | nil => exact .inl listed
  | cons n nodes ih =>
    rw [moved] at listed
    split at listed
    · refine (ih listed).imp_right ?_
      rintro ⟨k, hk, same⟩
      exact ⟨k, List.mem_cons_of_mem n hk, same⟩
    · rcases ih listed with listed | ⟨k, hk, same⟩
      · refine (List.mem_append.mp listed).imp_right fun listed => ?_
        exact ⟨n, List.mem_cons_self, List.mem_singleton.mp listed⟩
      · exact .inr ⟨k, List.mem_cons_of_mem n hk, same⟩

theorem mem_clip {selection : List Uid} (listed : m ∈ (g.clip selection).nodes) :
    ∃ n ∈ g.nodes, ∃ position, m = { n with position } := by
  rcases mem_moved listed with taken | ⟨n, hn, same⟩
  · exact ⟨m, boundNodes_subset taken, m.position, rfl⟩
  · exact ⟨n, (List.mem_filter.mp hn).1, _, same⟩

theorem clip_echoes (g : Graph) (selection : List Uid) :
    ∀ m ∈ (g.clip selection).nodes, ∃ n ∈ g.nodes, m.Echoes n := by
  intro m hm
  obtain ⟨n, hn, position, rfl⟩ := mem_clip hm
  exact ⟨n, hn, rfl, rfl, rfl⟩

private theorem moved_unplaced (center : Position) {bound taken rest : List Node}
    (distinct : (rest.map Node.uid).Nodup)
    (same : ∀ n ∈ rest, taken.any (fun t => t.uid == n.uid) = bound.any fun b => b.uid == n.uid) :
    (moved center taken rest).map Node.unplaced = taken.map Node.unplaced ++
      (rest.filter fun n => !(n.isVariable && bound.any fun b => b.uid == n.uid)).map
        Node.unplaced := by
  induction rest generalizing taken with
  | nil => simp [moved]
  | cons n rest ih =>
    obtain ⟨new, distinct⟩ := List.nodup_cons.mp distinct
    rw [moved, same n List.mem_cons_self]
    split
    · rename_i left
      rw [ih distinct fun k hk => same k (List.mem_cons_of_mem n hk), List.filter_cons, left]
      rfl
    · rename_i kept
      rw [Bool.not_eq_true] at kept
      rw [ih distinct fun k hk => ?_, List.filter_cons, kept, List.map_append, List.append_assoc]
      · rfl
      · have apart : (n.uid == k.uid) = false :=
          beq_eq_false_iff_ne.mpr fun one => new (one ▸ List.mem_map_of_mem hk)
        rw [List.any_append, same k (List.mem_cons_of_mem n hk), List.any_cons, List.any_nil]
        change (_ || ((n.uid == k.uid) || false)) = _
        rw [apart, Bool.or_false, Bool.or_false]

def untaken (g : Graph) (selection : List Uid) : List Node :=
  (g.selected selection).filter fun n =>
    !(n.isVariable && (g.boundNodes [] (g.selected selection)).any fun b => b.uid == n.uid)

/-- The nodes that selected nodes are bound to, and then those that are left of the selection. -/
def cut (g : Graph) (selection : List Uid) : List Node :=
  g.boundNodes [] (g.selected selection) ++ g.untaken selection

theorem clip_unplaced (distinct : g.uids.Nodup) (selection : List Uid) :
    (g.clip selection).nodes.map Node.unplaced = (g.cut selection).map Node.unplaced := by
  have apart : ((g.selected selection).map Node.uid).Nodup :=
    distinct.sublist (List.filter_sublist.map Node.uid)
  rw [clip]
  dsimp only
  rw [moved_unplaced _ apart fun _ _ => rfl, cut, untaken, List.map_append]

/-! ## All nodes -/

def isTakenFirst (g : Graph) (n : Node) : Bool :=
  n.isVariable && (g.boundNodes [] g.nodes).any fun b => b.uid == n.uid

def boundFirst (g : Graph) : Graph :=
  { g with nodes := g.boundNodes [] g.nodes ++ g.nodes.filter fun n => !g.isTakenFirst n }

theorem clip_uids (distinct : g.uids.Nodup) :
    (g.clip g.uids).nodes.map Node.unplaced = g.boundFirst.nodes.map Node.unplaced := by
  have all : g.selected g.uids = g.nodes :=
    List.filter_eq_self.mpr fun n hn => List.contains_iff_mem.mpr (uid_mem hn)
  rw [clip_unplaced distinct, cut, untaken, all]
  rfl

theorem boundFirst_reorders (distinct : g.uids.Nodup)
    (targets : ∀ n ∈ g.nodes, ∀ m, n.target?.bind g.find? = some m → m.isVariable) :
    g.Reorders g.boundFirst := by
  have declares : ∀ b ∈ g.boundNodes [] g.nodes, b.isVariable := fun b hb => by
    obtain ⟨-, n, hn, bound⟩ := mem_boundNodes hb
    exact targets n hn b bound
  have ahead : (g.boundNodes [] g.nodes).Perm (g.nodes.filter g.isTakenFirst) := by
    refine (List.perm_ext_iff_of_nodup (boundNodes_distinct _ _).of_map
      (distinct.of_map.filter _)).mpr fun n => ?_
    rw [List.mem_filter, isTakenFirst, Bool.and_eq_true, List.any_eq_true]
    constructor
    · exact fun listed => ⟨boundNodes_subset listed, declares n listed, n, listed, beq_self_eq_true _⟩
    · rintro ⟨listed, -, b, hb, same⟩
      have one := List.inj_on_of_nodup_map distinct (boundNodes_subset hb) listed (beq_iff_eq.mp same)
      exact one ▸ hb
  refine ⟨(ahead.append_right _).trans (List.filter_append_perm g.isTakenFirst g.nodes), ?_⟩
  have none : (g.boundNodes [] g.nodes).filter (fun n => !n.isVariable) = [] :=
    List.filter_eq_nil_iff.mpr fun b hb => by simp [declares b hb]
  rw [boundFirst, List.filter_append, none, List.nil_append, List.filter_filter]
  refine List.filter_congr fun n _ => ?_
  rw [isTakenFirst]
  cases n.isVariable <;> rfl

/-- A graph has the nodes of another, the variables that they are bound to first and each node
wherever it is placed. -/
def CopyOf (h g : Graph) : Prop :=
  h.nodes.map Node.unplaced = g.boundFirst.nodes.map Node.unplaced

section CopyOf

variable (copied : h.CopyOf g) (distinct : g.uids.Nodup)
  (targets : ∀ n ∈ g.nodes, ∀ m, n.target?.bind g.find? = some m → m.isVariable)
include copied

theorem CopyOf.uids : h.uids = g.boundFirst.uids := by
  have unplaced : ∀ nodes : List Node,
      (nodes.map Node.unplaced).map Node.uid = nodes.map Node.uid := fun nodes => by
    rw [List.map_map]
    rfl
  rw [Graph.uids, Graph.uids, ← unplaced, copied, unplaced]

include distinct targets

theorem CopyOf.mem_uids {u : Uid} : u ∈ h.uids ↔ u ∈ g.uids := by
  rw [copied.uids]
  exact ((boundFirst_reorders distinct targets).same.map Node.uid).mem_iff

theorem CopyOf.mem (listed : m ∈ h.nodes) : ∃ n ∈ g.nodes, ∃ position, m = { n with position } := by
  obtain ⟨n, hn, same⟩ := List.mem_map.mp (copied ▸ List.mem_map_of_mem listed)
  have moved : m = { m.unplaced with position := m.position } := rfl
  rw [← same] at moved
  exact ⟨n, (boundFirst_reorders distinct targets).mem_iff.mp hn, m.position, moved⟩

theorem CopyOf.echoes : h.Echoes g := by
  intro m hm
  obtain ⟨n, hn, position, rfl⟩ := copied.mem distinct targets hm
  exact ⟨n, hn, rfl, rfl, rfl⟩

end CopyOf

theorem CopyOf.wellFormed (copied : h.CopyOf g) (formed : g.WellFormed c)
    (targets : ∀ n ∈ g.nodes, ∀ m, n.target?.bind g.find? = some m → m.isVariable) :
    h.WellFormed c := by
  have listed := fun u => copied.mem_uids (u := u) formed.distinct targets
  have repeats := fun m hm => copied.mem (m := m) formed.distinct targets hm
  refine ⟨?_, fun m hm => ?_, fun m hm link linked => ?_, fun m hm target leads => ?_⟩
  · rw [copied.uids]
    exact (boundFirst_reorders formed.distinct targets).distinct formed.distinct
  · obtain ⟨n, hn, position, rfl⟩ := repeats m hm
    obtain ⟨d, found, conforms⟩ := formed.conforms n hn
    exact ⟨d, found, conforms.of_same rfl rfl rfl⟩
  · obtain ⟨n, hn, position, rfl⟩ := repeats m hm
    exact (listed _).mpr (formed.links n hn link linked)
  · obtain ⟨n, hn, position, rfl⟩ := repeats m hm
    exact (listed _).mpr (formed.flows n hn target leads)

end ScriptGraph.Graph
