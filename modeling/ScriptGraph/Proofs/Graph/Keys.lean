import ScriptGraph.Proofs.Graph.WellFormed
import Mathlib.Data.List.Pairwise

/-!
Keys that no two nodes of a graph may share, such as the names of variables. A key is read off what a
node says, so that moving, connecting and removing nodes cannot make two of them share one.
-/

set_option autoImplicit false
set_option relaxedAutoImplicit false

namespace ScriptGraph

/-- A node says what another says, wherever it is placed and whatever it is connected to. -/
structure Node.Echoes (m n : Node) : Prop where
  uid : m.uid = n.uid
  fullName : m.fullName = n.fullName
  values : m.values = n.values

theorem Node.Echoes.refl (n : Node) : n.Echoes n := ⟨rfl, rfl, rfl⟩

theorem Node.Echoes.trans {k m n : Node} (first : k.Echoes m) (second : m.Echoes n) : k.Echoes n :=
  ⟨first.uid.trans second.uid, first.fullName.trans second.fullName,
    first.values.trans second.values⟩

theorem Node.Echoes.isVariable {m n : Node} (echoes : m.Echoes n) : m.isVariable = n.isVariable := by
  rw [Node.isVariable, Node.isVariable, kind, kind, echoes.fullName]

theorem Node.Echoes.target? {m n : Node} (echoes : m.Echoes n) : m.target? = n.target? := by
  rw [Node.target?, Node.target?, access?, access?, kind, kind, echoes.fullName, echoes.values]

theorem Node.forget_echoes (n : Node) (uid : Uid) : (n.forget uid).Echoes n := ⟨rfl, rfl, rfl⟩

namespace Graph

variable {c : Catalog} {g h k : Graph} {uid : Uid} {n : Node}

def Echoes (h g : Graph) : Prop := ∀ m ∈ h.nodes, ∃ n ∈ g.nodes, m.Echoes n

theorem Echoes.refl (g : Graph) : g.Echoes g := fun m hm => ⟨m, hm, .refl m⟩

theorem Echoes.trans (first : k.Echoes h) (second : h.Echoes g) : k.Echoes g := by
  intro l hl
  obtain ⟨m, hm, echoes⟩ := first l hl
  obtain ⟨n, hn, repeats⟩ := second m hm
  exact ⟨n, hn, echoes.trans repeats⟩

theorem update_echoes {change : Node → Node} (echoes : ∀ n, (change n).Echoes n) (g : Graph)
    (uid : Uid) : (g.update uid change).Echoes g := by
  intro m hm
  rcases mem_update hm with hm | ⟨n, hn, -, rfl⟩
  · exact ⟨m, hm, .refl m⟩
  · exact ⟨n, hn, echoes n⟩

theorem mapNodes_echoes {change : Node → Node} (echoes : ∀ n, (change n).Echoes n) (g : Graph) :
    (g.mapNodes change).Echoes g := by
  intro m hm
  obtain ⟨n, hn, rfl⟩ := List.mem_map.mp hm
  exact ⟨n, hn, echoes n⟩

theorem echoes_of_subset (subset : ∀ m ∈ h.nodes, m ∈ g.nodes) : h.Echoes g :=
  fun m hm => ⟨m, subset m hm, .refl m⟩

theorem relayout_echoes (g : Graph) (c : Catalog) (uid : Uid) : (g.relayout c uid).Echoes g := by
  refine update_echoes (fun n => ?_) g uid
  split <;> exact ⟨rfl, rfl, rfl⟩

theorem foldl_relayout_echoes (g : Graph) (c : Catalog) (uids : List Uid) :
    (uids.foldl (fun g uid => g.relayout c uid) g).Echoes g := by
  induction uids generalizing g with
  | nil => exact .refl g
  | cons uid uids ih => exact (ih _).trans (relayout_echoes g c uid)

theorem relayoutBlocks_echoes (g : Graph) (c : Catalog) : (g.relayoutBlocks c).Echoes g := by
  unfold relayoutBlocks
  split
  · refine mapNodes_echoes (fun n => ?_) g
    split <;> exact ⟨rfl, rfl, rfl⟩
  · exact .refl g

theorem extract_echoes (g : Graph) (uid : Uid) : (g.extract uid).Echoes g := by
  have fewer : (g.remove uid).Echoes g := echoes_of_subset fun _ hm => List.eraseP_sublist.subset hm
  have forgets : ((g.remove uid).mapNodes fun n => n.forget uid).Echoes (g.remove uid) :=
    mapNodes_echoes (fun n => n.forget_echoes uid) _
  exact forgets.trans fewer

theorem foldl_extract_echoes (g : Graph) (uids : List Uid) : (uids.foldl extract g).Echoes g := by
  induction uids generalizing g with
  | nil => exact .refl g
  | cons uid uids ih => exact (ih _).trans (extract_echoes g uid)

/-! ## Keys -/

section Unique

variable {κ : Type} {key : Node → Option κ}

/-- No two nodes have one key. -/
def Unique (key : Node → Option κ) (g : Graph) : Prop :=
  ∀ n ∈ g.nodes, ∀ m ∈ g.nodes, n.uid ≠ m.uid → ∀ k, key n = some k → key m ≠ some k

theorem Unique.of_kept (unique : g.Unique key)
    (kept : ∀ m ∈ h.nodes, ∃ n ∈ g.nodes, m.uid = n.uid ∧ ∀ k, key m = some k → key n = some k) :
    h.Unique key := by
  intro n hn m hm apart k first second
  obtain ⟨n', hn', same, kept'⟩ := kept n hn
  obtain ⟨m', hm', same', kept''⟩ := kept m hm
  exact unique n' hn' m' hm' (fun one => apart (same.trans (one.trans same'.symm))) k
    (kept' k first) (kept'' k second)

theorem Unique.of_echoes (unique : g.Unique key) (echoes : h.Echoes g)
    (said : ∀ {m n : Node}, m.Echoes n → key m = key n) : h.Unique key := by
  refine unique.of_kept fun m hm => ?_
  obtain ⟨n, hn, repeats⟩ := echoes m hm
  exact ⟨n, hn, repeats.uid, fun k keyed => said repeats ▸ keyed⟩

theorem Unique.push (unique : g.Unique key)
    (new : ∀ k, key n = some k → ∀ m ∈ g.nodes, key m ≠ some k) : (g.push n).Unique key := by
  intro m hm m' hm' apart k first second
  rcases List.mem_append.mp hm with hm | hm <;> rcases List.mem_append.mp hm' with hm' | hm'
  · exact unique m hm m' hm' apart k first second
  · rw [List.mem_singleton.mp hm'] at second
    exact new k second m hm first
  · rw [List.mem_singleton.mp hm] at first
    exact new k first m' hm' second
  · exact apart (by rw [List.mem_singleton.mp hm, List.mem_singleton.mp hm'])

theorem Unique.update {change : Node → Node} (unique : g.Unique key)
    (keeps : ∀ n, (change n).uid = n.uid) (new : ∀ n ∈ g.nodes, n.uid = uid → ∀ k,
      key (change n) = some k → ∀ m ∈ g.nodes, m.uid ≠ uid → key m ≠ some k) :
    (g.update uid change).Unique key := by
  intro m hm m' hm' apart k first second
  rcases mem_update hm with hm | ⟨n, hn, here, rfl⟩ <;>
    rcases mem_update hm' with hm' | ⟨n', hn', here', rfl⟩
  · exact unique m hm m' hm' apart k first second
  · rw [keeps, here'] at apart
    exact new n' hn' here' k second m hm apart first
  · rw [keeps, here] at apart
    exact new n hn here k first m' hm' (Ne.symm apart) second
  · exact apart (by rw [keeps, keeps, here, here'])

theorem Unique.update_of_kept {change : Node → Node} (unique : g.Unique key)
    (keeps : ∀ n, (change n).uid = n.uid)
    (kept : ∀ n ∈ g.nodes, n.uid = uid → ∀ k, key (change n) = some k → key n = some k) :
    (g.update uid change).Unique key :=
  unique.update keeps fun n hn here k keyed m hm there =>
    unique n hn m hm (fun same => there (same.symm.trans here)) k (kept n hn here k keyed)

theorem Unique.append {additions : List Node} (unique : g.Unique key)
    (apart : additions.Pairwise fun n m => ∀ k, key n = some k → key m ≠ some k)
    (new : ∀ n ∈ additions, ∀ k, key n = some k → ∀ m ∈ g.nodes, key m ≠ some k) :
    ({ g with nodes := g.nodes ++ additions } : Graph).Unique key := by
  have : Std.Symm fun n m : Node => ∀ k, key n = some k → key m ≠ some k :=
    ⟨fun _ _ apart k first second => apart k second first⟩
  intro m hm m' hm' differ k first second
  rcases List.mem_append.mp hm with hm | hm <;> rcases List.mem_append.mp hm' with hm' | hm'
  · exact unique m hm m' hm' differ k first second
  · exact new m' hm' k second m hm first
  · exact new m hm k first m' hm' second
  · exact apart.forall hm hm' (fun same => differ (congrArg Node.uid same)) k first second

theorem Unique.pairwise (unique : g.Unique key) (distinct : g.uids.Nodup) :
    g.nodes.Pairwise fun n m => ∀ k, key n = some k → key m ≠ some k := by
  have apart : g.nodes.Pairwise fun n m => n.uid ≠ m.uid := List.pairwise_map.mp distinct
  exact apart.imp_of_mem fun hn hm differ => unique _ hn _ hm differ

theorem Unique.of_nodup (distinct : (g.nodes.filterMap key).Nodup) : g.Unique key := by
  have : Std.Symm fun n m : Node => ∀ k, key n = some k → key m ≠ some k :=
    ⟨fun _ _ apart k first second => apart k second first⟩
  have apart : g.nodes.Pairwise fun n m => ∀ k, key n = some k → key m ≠ some k :=
    (List.pairwise_filterMap.mp distinct).imp fun differ k first second => differ k first k second rfl
  exact fun n hn m hm differ => apart.forall hn hm fun same => differ (congrArg Node.uid same)

end Unique

end Graph

end ScriptGraph
