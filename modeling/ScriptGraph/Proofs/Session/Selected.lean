import ScriptGraph.Proofs.Clipping.Cut
import ScriptGraph.Proofs.Renaming.Graph
import ScriptGraph.Proofs.Session.WellFormed

/-!
What a selection takes along. A clipping holds the selected nodes and the variables that they are
bound to, each of them once, as long as they are bound to nothing but variables. A node of any other
kind is taken as if it were a variable, and taken once more if it is selected too.
-/

set_option autoImplicit false
set_option relaxedAutoImplicit false

namespace ScriptGraph

variable {c : Catalog} {g : Graph} {selection : List Uid}

/-- Nodes are what a selection in a graph stands for. -/
structure Graph.Selects (g : Graph) (selection : List Uid) (nodes : List Node) : Prop where
  distinct : (nodes.map Node.uid).Nodup
  /-- The selected nodes, and the variables that selected nodes are bound to. -/
  listed : ∀ n ∈ g.nodes, n.uid ∈ nodes.map Node.uid ↔
    n.uid ∈ selection ∨ n.isVariable ∧ ∃ k ∈ g.nodes, k.uid ∈ selection ∧ k.target? = some n.uid
  /-- No variable comes after a node that is bound to it. -/
  ahead : nodes.Pairwise fun n m => m.isVariable → n.target? ≠ some m.uid
  /-- The nodes are those of the graph, wherever they are placed. -/
  kept : ∀ m ∈ nodes, ∃ n ∈ g.nodes, m.unplaced = n.unplaced

/-- What selected nodes are bound to is a variable. -/
def Graph.BoundToVariables (g : Graph) (selection : List Uid) : Prop :=
  ∀ n ∈ g.selected selection, ∀ m ∈ n.target?.bind g.find?, m.isVariable

namespace Graph

theorem mem_selected {n : Node} : n ∈ g.selected selection ↔ n ∈ g.nodes ∧ n.uid ∈ selection := by
  rw [selected, List.mem_filter, List.contains_iff_mem]

theorem Selects.of_unplaced {k l : List Node} (selects : g.Selects selection l)
    (same : k.map Node.unplaced = l.map Node.unplaced) : g.Selects selection k := by
  have unplaced : ∀ nodes : List Node, (nodes.map Node.unplaced).map Node.uid = nodes.map Node.uid :=
    fun nodes => by
      rw [List.map_map]
      rfl
  have uids : k.map Node.uid = l.map Node.uid := by rw [← unplaced, same, unplaced]
  let Ahead : Node → Node → Prop := fun n m => m.isVariable → n.target? ≠ some m.uid
  have moved : ∀ nodes : List Node, (nodes.map Node.unplaced).Pairwise Ahead ↔ nodes.Pairwise Ahead :=
    fun nodes => List.pairwise_map
  constructor
  case distinct => exact uids ▸ selects.distinct
  case listed => exact uids ▸ selects.listed
  case ahead => exact (moved k).mp (same ▸ (moved l).mpr selects.ahead)
  case kept =>
    intro m hm
    obtain ⟨n, hn, placed⟩ := List.mem_map.mp (same ▸ List.mem_map_of_mem hm)
    obtain ⟨o, ho, kept⟩ := selects.kept n hn
    exact ⟨o, ho, placed.symm.trans kept⟩

/-! ## What is taken ahead -/

theorem taken_of_target (distinct : g.uids.Nodup) {n k : Node} (there : n ∈ g.nodes)
    (selected : k ∈ g.selected selection) (bound : k.target? = some n.uid) :
    n ∈ g.boundNodes [] (g.selected selection) := by
  have found : k.target?.bind g.find? = some n := by
    rw [bound, Option.bind_some, find?_of_mem distinct there]
  exact (mem_boundNodes_of_target selected found).resolve_left List.not_mem_nil

namespace BoundToVariables

variable (targets : g.BoundToVariables selection) {n : Node}
include targets

theorem isVariable (taken : n ∈ g.boundNodes [] (g.selected selection)) : n.isVariable := by
  obtain ⟨-, k, hk, bound⟩ := mem_boundNodes taken
  exact targets k hk n bound

theorem unbound (taken : n ∈ g.boundNodes [] (g.selected selection)) : n.target? = none := by
  rw [Node.target?, Node.access?_of_isVariable (targets.isVariable taken)]
  rfl

theorem mem_untaken (distinct : g.uids.Nodup) : n ∈ g.untaken selection ↔
    n ∈ g.selected selection ∧ n ∉ g.boundNodes [] (g.selected selection) := by
  rw [untaken, List.mem_filter]
  refine and_congr_right fun chosen => ?_
  rw [Bool.not_eq_true', ← Bool.not_eq_true, not_iff_not, Bool.and_eq_true, List.any_eq_true]
  constructor
  · rintro ⟨-, b, taken, same⟩
    have one := List.inj_on_of_nodup_map distinct (boundNodes_subset taken) (mem_selected.mp chosen).1
      (beq_iff_eq.mp same)
    exact one ▸ taken
  · exact fun taken => ⟨targets.isVariable taken, n, taken, beq_self_eq_true _⟩

end BoundToVariables

/-! ## All that is taken -/

theorem cut_selects (distinct : g.uids.Nodup) (targets : g.BoundToVariables selection) :
    g.Selects selection (g.cut selection) := by
  have rest := fun n => targets.mem_untaken (n := n) distinct
  constructor
  case distinct =>
    rw [cut, List.map_append]
    refine List.nodup_append'.mpr ⟨boundNodes_distinct _ _,
      distinct.sublist ((List.filter_sublist.trans List.filter_sublist).map Node.uid), ?_⟩
    intro u taken left
    obtain ⟨n, hn, rfl⟩ := List.mem_map.mp taken
    obtain ⟨m, hm, same⟩ := List.mem_map.mp left
    obtain ⟨chosen, untaken⟩ := (rest m).mp hm
    have one := List.inj_on_of_nodup_map distinct (mem_selected.mp chosen).1 (boundNodes_subset hn) same
    exact untaken (one ▸ hn)
  case listed =>
    intro n hn
    rw [cut, List.map_append, List.mem_append]
    constructor
    · rintro (taken | left)
      · obtain ⟨m, hm, same⟩ := List.mem_map.mp taken
        obtain ⟨-, k, hk, bound⟩ := mem_boundNodes hm
        obtain ⟨u, target, found⟩ := Option.bind_eq_some_iff.mp bound
        obtain rfl := List.inj_on_of_nodup_map distinct (boundNodes_subset hm) hn same
        obtain ⟨there, chosen⟩ := mem_selected.mp hk
        exact .inr ⟨targets.isVariable hm, k, there, chosen, by rw [target, find?_uid found]⟩
      · obtain ⟨m, hm, same⟩ := List.mem_map.mp left
        exact .inl (same ▸ (mem_selected.mp ((rest m).mp hm).1).2)
    · rintro (chosen | ⟨-, k, hk, chosen, bound⟩)
      · by_cases taken : n ∈ g.boundNodes [] (g.selected selection)
        · exact .inl (List.mem_map_of_mem taken)
        · exact .inr (List.mem_map_of_mem ((rest n).mpr ⟨mem_selected.mpr ⟨hn, chosen⟩, taken⟩))
      · exact .inl (List.mem_map_of_mem
          (taken_of_target distinct hn (mem_selected.mpr ⟨hk, chosen⟩) bound))
  case ahead =>
    refine List.pairwise_append.mpr ⟨?_, ?_, ?_⟩
    · refine List.pairwise_of_forall_mem_list fun n hn m _ _ => ?_
      rw [targets.unbound hn]
      exact (Option.some_ne_none _).symm
    · refine List.pairwise_of_forall_mem_list fun n hn m hm _ bound => ?_
      obtain ⟨chosen, untaken⟩ := (rest m).mp hm
      exact untaken (taken_of_target distinct (mem_selected.mp chosen).1 ((rest n).mp hn).1 bound)
    · intro n hn m _ _
      rw [targets.unbound hn]
      exact (Option.some_ne_none _).symm
  case kept =>
    intro m hm
    rcases List.mem_append.mp hm with taken | left
    · exact ⟨m, boundNodes_subset taken, rfl⟩
    · exact ⟨m, (mem_selected.mp ((rest m).mp left).1).1, rfl⟩

theorem boundToVariables_of_selects (selects : g.Selects selection (g.cut selection)) :
    g.BoundToVariables selection := by
  intro k hk m bound
  obtain ⟨u, -, found⟩ := Option.bind_eq_some_iff.mp bound
  have there := find?_mem found
  have taken : m ∈ g.boundNodes [] (g.selected selection) :=
    (mem_boundNodes_of_target hk bound).resolve_left List.not_mem_nil
  by_contra other
  have listed : m.uid ∈ (g.cut selection).map Node.uid :=
    List.mem_map_of_mem (List.mem_append_left _ taken)
  have chosen : m.uid ∈ selection :=
    ((selects.listed m there).mp listed).resolve_right fun declares => other declares.1
  have left : m ∈ g.untaken selection := by
    refine List.mem_filter.mpr ⟨mem_selected.mpr ⟨there, chosen⟩, ?_⟩
    rw [Bool.eq_false_iff.mpr other]
    rfl
  have apart := selects.distinct
  rw [cut, List.map_append] at apart
  exact (List.nodup_append'.mp apart).2.2 (List.mem_map_of_mem taken) (List.mem_map_of_mem left)

theorem clip_selects_iff (distinct : g.uids.Nodup) :
    g.Selects selection (g.clip selection).nodes ↔ g.BoundToVariables selection := by
  have same := clip_unplaced distinct selection
  constructor
  · exact fun selects => boundToVariables_of_selects (selects.of_unplaced same.symm)
  · exact fun targets => (cut_selects distinct targets).of_unplaced same

end Graph

namespace Session

/-- Whatever has been done to a session and whatever is selected, a clipping of its graph is what the
selection stands for, exactly if selected nodes are bound to nothing but variables. -/
theorem after_clip_selects_iff (distinct : c.Distinct) {s : Session}
    (begun : s.Begun c fun asset => asset.graph.uids.Nodup) (actions : List Action)
    (selection : List Uid) :
    (s.after actions).graph.Selects selection ((s.after actions).graph.clip selection).nodes ↔
      (s.after actions).graph.BoundToVariables selection := by
  obtain ⟨-, sound⟩ := begun.after_sound distinct actions
  exact Graph.clip_selects_iff sound.formed.distinct

private theorem created_begun : (create Catalog.intrinsic .default (.marks 'a')).Begun
    Catalog.intrinsic fun asset => asset.graph.uids.Nodup :=
  .created .default (Supply.marks_fresh fun _ listed => absurd listed List.not_mem_nil)

/-- A variable that nothing is bound to, and one that two nodes are bound to, one of them older. -/
def recounting : List Action := [
  .addNode Kind.getVariableName .origin,
  .addVariable int32Type "spare" false,
  .addVariable int32Type "count" true,
  .addAccess .set "aaaa" .origin,
  .setValue "aa" 0 (.text "aaaa")]

/-- The variable that the selected nodes share goes ahead of all of them, once. -/
theorem after_clip_selects_shared :
    ((create Catalog.intrinsic .default (.marks 'a')).after recounting).graph.Selects
      ["aaaaa", "aaa", "aa", "elsewhere"]
      (((create Catalog.intrinsic .default (.marks 'a')).after recounting).graph.clip
        ["aaaaa", "aaa", "aa", "elsewhere"]).nodes ∧
    (((create Catalog.intrinsic .default (.marks 'a')).after recounting).graph.clip
      ["aaaaa", "aaa", "aa", "elsewhere"]).nodes.map Node.uid = ["aaaa", "aa", "aaa", "aaaaa"] := by
  have runs : (∀ n ∈ ((create Catalog.intrinsic .default (.marks 'a')).after
        recounting).graph.selected ["aaaaa", "aaa", "aa", "elsewhere"],
      ∀ m ∈ n.target?.bind ((create Catalog.intrinsic .default (.marks 'a')).after
        recounting).graph.find?, m.isVariable) ∧
      (((create Catalog.intrinsic .default (.marks 'a')).after recounting).graph.clip
        ["aaaaa", "aaa", "aa", "elsewhere"]).nodes.map Node.uid = ["aaaa", "aa", "aaa", "aaaaa"] := by
    rw [Catalog.intrinsic_eq]
    decide +kernel
  obtain ⟨targets, uids⟩ := runs
  exact ⟨(after_clip_selects_iff Catalog.intrinsic_distinct created_begun recounting _).mpr targets, uids⟩

/-- An access to a block in place of a variable. -/
def misbinding : List Action := [
  .addNode "Block" .origin,
  .addNode Kind.getVariableName .origin,
  .setValue "aaa" 0 (.text "aa")]

/-- The clipping holds the block twice. -/
theorem block_clipped_twice :
    (((create Catalog.intrinsic .default (.marks 'a')).after misbinding).graph.clip
      ["aa", "aaa"]).nodes.map Node.uid = ["aa", "aa", "aaa"] ∧
    ¬((create Catalog.intrinsic .default (.marks 'a')).after misbinding).graph.Selects ["aa", "aaa"]
      (((create Catalog.intrinsic .default (.marks 'a')).after misbinding).graph.clip
        ["aa", "aaa"]).nodes := by
  have uids : (((create Catalog.intrinsic .default (.marks 'a')).after misbinding).graph.clip
      ["aa", "aaa"]).nodes.map Node.uid = ["aa", "aa", "aaa"] := by
    rw [Catalog.intrinsic_eq]
    decide +kernel
  refine ⟨uids, fun selects => ?_⟩
  have distinct := selects.distinct
  rw [uids] at distinct
  exact absurd distinct (by decide)

end Session

end ScriptGraph
