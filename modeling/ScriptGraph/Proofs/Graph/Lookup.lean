import ScriptGraph.Graph
import Mathlib.Data.List.Nodup

/-!
Looking up nodes by uid. In a graph with distinct uids every node is found under its own, and editing
one node leaves the others as they are.
-/

set_option autoImplicit false
set_option relaxedAutoImplicit false

namespace ScriptGraph.Graph

variable {g : Graph} {uid : Uid} {n : Node}

theorem find?_mem (found : g.find? uid = some n) : n ∈ g.nodes :=
  List.mem_of_find?_eq_some found

theorem find?_uid (found : g.find? uid = some n) : n.uid = uid := by
  have hsame := List.find?_some found
  exact beq_iff_eq.mp hsame

theorem uid_mem (listed : n ∈ g.nodes) : n.uid ∈ g.uids :=
  List.mem_map_of_mem listed

theorem find?_isSome_of_mem (listed : uid ∈ g.uids) : ∃ n, g.find? uid = some n := by
  obtain ⟨n, hn, rfl⟩ := List.mem_map.mp listed
  exact Option.isSome_iff_exists.mp (List.find?_isSome.mpr ⟨n, hn, by simp⟩)

theorem contains_iff : g.contains uid ↔ uid ∈ g.uids := by
  constructor
  · intro there
    obtain ⟨n, found⟩ := Option.isSome_iff_exists.mp there
    exact find?_uid found ▸ uid_mem (find?_mem found)
  · intro listed
    obtain ⟨n, found⟩ := find?_isSome_of_mem listed
    rw [contains, found]
    rfl

theorem find?_of_mem (distinct : g.uids.Nodup) (listed : n ∈ g.nodes) :
    g.find? n.uid = some n := by
  obtain ⟨m, found⟩ := find?_isSome_of_mem (uid_mem listed)
  have hsame : m = n :=
    List.inj_on_of_nodup_map distinct (find?_mem found) listed (find?_uid found)
  rw [found, hsame]

theorem find?_eq_some_iff (distinct : g.uids.Nodup) :
    g.find? uid = some n ↔ n ∈ g.nodes ∧ n.uid = uid := by
  constructor
  · exact fun found => ⟨find?_mem found, find?_uid found⟩
  · rintro ⟨listed, rfl⟩
    exact find?_of_mem distinct listed

theorem eq_of_find? {m : Node} (distinct : g.uids.Nodup) (found : g.find? uid = some n)
    (listed : m ∈ g.nodes) (here : m.uid = uid) : m = n :=
  List.inj_on_of_nodup_map distinct listed (find?_mem found) (here.trans (find?_uid found).symm)

theorem find?_push {m : Node} (found : g.find? uid = some n) : (g.push m).find? uid = some n := by
  change (g.nodes ++ [m]).find? _ = _
  rw [List.find?_append, show g.nodes.find? _ = _ from found, Option.some_or]

theorem find?_push_new {m : Node} (new : m.uid ∉ g.uids) : (g.push m).find? m.uid = some m := by
  have absent : ∀ n ∈ g.nodes, ¬(n.uid == m.uid) = true := fun n listed same =>
    new (beq_iff_eq.mp same ▸ uid_mem listed)
  change (g.nodes ++ [m]).find? _ = _
  rw [List.find?_append, List.find?_eq_none.mpr absent, Option.none_or,
    List.find?_cons_of_pos (by simp)]

theorem find?_mapNodes {change : Node → Node} (keeps : ∀ n, (change n).uid = n.uid) :
    (g.mapNodes change).find? uid = (g.find? uid).map change := by
  rw [find?, mapNodes, List.find?_map, find?]
  congr 2
  funext n
  simp only [Function.comp_apply, keeps]

theorem uids_mapNodes {change : Node → Node} (keeps : ∀ n, (change n).uid = n.uid) :
    (g.mapNodes change).uids = g.uids := by
  simp only [uids, mapNodes, List.map_map, Function.comp_def, keeps]

private theorem uids_updateFirst {change : Node → Node} (keeps : ∀ n, (change n).uid = n.uid)
    (nodes : List Node) : (updateFirst uid change nodes).map Node.uid = nodes.map Node.uid := by
  induction nodes with
  | nil => rfl
  | cons n nodes ih =>
    rw [updateFirst]
    split
    · rw [List.map_cons, List.map_cons, keeps]
    · rw [List.map_cons, List.map_cons, ih]

theorem uids_update {change : Node → Node} (keeps : ∀ n, (change n).uid = n.uid) :
    (g.update uid change).uids = g.uids :=
  uids_updateFirst keeps g.nodes

private theorem find?_updateFirst {change : Node → Node} (keeps : ∀ n, (change n).uid = n.uid)
    (other : Uid) (nodes : List Node) :
    (updateFirst uid change nodes).find? (fun n => n.uid == other) =
      if other = uid then (nodes.find? fun n => n.uid == other).map change
      else nodes.find? fun n => n.uid == other := by
  induction nodes with
  | nil => simp [updateFirst]
  | cons n nodes ih =>
    rw [updateFirst]
    by_cases here : n.uid = uid
    · rw [if_pos here, List.find?_cons, List.find?_cons, keeps, here]
      by_cases same : other = uid
      · simp [same]
      · have hne : (uid == other) = false := beq_eq_false_iff_ne.mpr (Ne.symm same)
        simp [same, hne]
    · rw [if_neg here, List.find?_cons, List.find?_cons, ih]
      by_cases there : n.uid = other
      · have hother : other ≠ uid := there ▸ here
        simp [there, hother]
      · have hne : (n.uid == other) = false := beq_eq_false_iff_ne.mpr there
        simp [hne]

theorem find?_update {change : Node → Node} (keeps : ∀ n, (change n).uid = n.uid) (other : Uid) :
    (g.update uid change).find? other =
      if other = uid then (g.find? uid).map change else g.find? other := by
  rw [find?, update, find?_updateFirst keeps]
  split
  · rename_i same
    rw [same, find?]
  · rfl

theorem update_eq_self {change : Node → Node} (same : ∀ n ∈ g.nodes, change n = n) (uid : Uid) :
    g.update uid change = g := by
  have kept : ∀ nodes : List Node, (∀ n ∈ nodes, change n = n) →
      updateFirst uid change nodes = nodes := by
    intro nodes
    induction nodes with
    | nil => exact fun _ => rfl
    | cons n nodes ih =>
      intro same
      rw [updateFirst, same n List.mem_cons_self, ih fun m hm => same m (List.mem_cons_of_mem n hm),
        ite_self]
  rw [update, kept g.nodes same]

theorem nodes_remove (distinct : g.uids.Nodup) :
    (g.remove uid).nodes = g.nodes.filter fun n => n.uid ≠ uid := by
  change g.nodes.eraseP (fun n => n.uid == uid) = _
  rw [uids] at distinct
  generalize g.nodes = nodes at distinct ⊢
  induction nodes with
  | nil => rfl
  | cons n nodes ih =>
    rw [List.map_cons, List.nodup_cons] at distinct
    by_cases here : n.uid = uid
    · have hrest : nodes.filter (fun m => decide (m.uid ≠ uid)) = nodes := by
        rw [List.filter_eq_self]
        intro m hm
        rw [decide_eq_true_iff]
        rintro rfl
        exact distinct.1 (here ▸ List.mem_map_of_mem hm)
      rw [List.eraseP_cons_of_pos (by simp [here]), List.filter_cons_of_neg (by simp [here]), hrest]
    · rw [List.eraseP_cons_of_neg (by simp [here]), List.filter_cons_of_pos (by simp [here]),
        ih distinct.2]

theorem mem_variableNodes : n ∈ g.variableNodes ↔ n ∈ g.nodes ∧ n.variableName?.isSome := by
  rw [variableNodes, List.mem_append, List.mem_filter, List.mem_filter, List.mem_filter]
  cases n.variableName?.any isInternalName <;> simp

theorem variableNodes_distinct (distinct : g.uids.Nodup) :
    (g.variableNodes.map Node.uid).Nodup := by
  let named := g.nodes.filter fun n => n.variableName?.isSome
  have same : g.variableNodes.Perm named :=
    List.perm_append_comm.trans
      (List.filter_append_perm (fun n => n.variableName?.any isInternalName) named)
  have hnamed : (named.map Node.uid).Nodup := distinct.sublist (List.filter_sublist.map Node.uid)
  exact (same.map Node.uid).nodup_iff.mpr hnamed

end ScriptGraph.Graph
