import ScriptGraph.Proofs.Snapshot.Restored

/-!
The layout of nodes. Brought in line with a definition, a node has one link entry and at least one
literal for each input, and as many flow outputs as it should; the connected outputs of a block come
first.
-/

set_option autoImplicit false
set_option relaxedAutoImplicit false

namespace ScriptGraph

@[simp] theorem length_fitted {α : Type} (length : Nat) (entries : List (Option α)) :
    (fitted length entries).length = length := by
  rw [fitted, List.length_append, List.length_take, List.length_replicate]
  omega

theorem fitted_length {α : Type} (entries : List (Option α)) :
    fitted entries.length entries = entries := by
  rw [fitted, List.take_length, Nat.sub_self, List.replicate_zero, List.append_nil]

theorem presentCount_append {α : Type} (first second : List (Option α)) :
    presentCount (first ++ second) = presentCount first + presentCount second :=
  List.countP_append

theorem presentCount_map_some {α : Type} (entries : List α) :
    presentCount (entries.map some) = entries.length := by
  rw [presentCount, List.countP_map]
  exact List.countP_eq_length.mpr fun _ _ => rfl

theorem presentCount_replicate_none {α : Type} (count : Nat) :
    presentCount (List.replicate count (none : Option α)) = 0 := by
  rw [presentCount, List.countP_replicate, if_neg (by simp)]

theorem filter_isSome_eq {α : Type} (entries : List (Option α)) :
    entries.filter Option.isSome = (entries.filterMap id).map some := by
  induction entries with
  | nil => rfl
  | cons entry entries ih => cases entry <;> simp [ih]

theorem length_filterMap_id {α : Type} (entries : List (Option α)) :
    (entries.filterMap id).length = presentCount entries := by
  rw [presentCount, List.countP_eq_length_filter, filter_isSome_eq, List.length_map]

namespace Node

variable {d : Definition} {n : Node}

def Compact (flows : List (Option Uid)) : Prop :=
  ∃ (targets : List Uid) (free : Nat), flows = targets.map some ++ List.replicate free none

/-- A node has one link entry and at least one literal for each input, and the flow outputs that its
definition gives it. -/
structure Conforms (d : Definition) (n : Node) : Prop where
  links : n.links.length = d.inputs.length
  values : d.inputs.length ≤ n.values.length
  flows : n.flows.length = flowPorts d n.flows
  compact : d.kind = .block → Compact n.flows

/-- A node conforms to its definition, the flow outputs of a block aside. -/
structure Sized (d : Definition) (n : Node) : Prop where
  links : n.links.length = d.inputs.length
  values : d.inputs.length ≤ n.values.length
  flows : d.kind ≠ .block → n.flows.length = d.flowArity

theorem Conforms.sized (conforms : n.Conforms d) : n.Sized d := by
  refine ⟨conforms.links, conforms.values, fun other => ?_⟩
  rw [conforms.flows, flowPorts, if_neg other]

theorem Sized.conforms (sized : n.Sized d) (other : d.kind ≠ .block) : n.Conforms d := by
  refine ⟨sized.links, sized.values, ?_, fun block => absurd block other⟩
  rw [sized.flows other, flowPorts, if_neg other]

theorem laidOut_block (block : d.kind = .block) (flows : List (Option Uid)) :
    (laidOut d flows).1 = (flows.filterMap id).map some ++
      List.replicate (max 2 (presentCount flows + 1) - presentCount flows) none := by
  have room : presentCount flows ≤ max 2 (presentCount flows + 1) := by omega
  rw [laidOut, if_pos block, filter_isSome_eq, flowPorts, if_pos block, fitted, List.length_map,
    length_filterMap_id, List.take_of_length_le]
  rw [List.length_map, length_filterMap_id]
  exact room

theorem laidOut_length (d : Definition) (flows : List (Option Uid)) :
    (laidOut d flows).1.length = flowPorts d (laidOut d flows).1 := by
  by_cases block : d.kind = .block
  · rw [flowPorts, if_pos block, laidOut_block block, List.length_append, List.length_map,
      List.length_replicate, presentCount_append, presentCount_map_some,
      presentCount_replicate_none, length_filterMap_id]
    omega
  · rw [flowPorts, if_neg block, laidOut, if_neg block]
    exact length_fitted _ _

theorem laidOut_compact (block : d.kind = .block) (flows : List (Option Uid)) :
    Compact (laidOut d flows).1 :=
  ⟨_, _, laidOut_block block flows⟩

theorem Sized.layFlows_conforms (sized : n.Sized d) : (n.layFlows d).Conforms d :=
  ⟨sized.links, sized.values, laidOut_length d n.flows, fun block => laidOut_compact block n.flows⟩

theorem conform_conforms (n : Node) (d : Definition) : (n.conform d).Conforms d := by
  refine ⟨length_fitted _ _, ?_, laidOut_length d n.flows, fun block => laidOut_compact block n.flows⟩
  change d.inputs.length ≤ (n.values ++ d.initialValues.drop n.values.length).length
  rw [List.length_append, List.length_drop, Definition.initialValues, List.length_map]
  omega

theorem fresh_conforms (uid : Uid) (d : Definition) : (fresh uid d).Conforms d :=
  conform_conforms _ d

theorem laidOut_of_length {flows : List (Option Uid)} (other : d.kind ≠ .block)
    (length : flows.length = flowPorts d flows) : (laidOut d flows).1 = flows := by
  rw [flowPorts, if_neg other] at length
  rw [laidOut, if_neg other, ← length]
  dsimp only
  rw [List.take_length, List.drop_length, List.filterMap_nil, fillAbsent, fitted_length]

theorem Conforms.laidOut_eq (conforms : n.Conforms d) : (laidOut d n.flows).1 = n.flows := by
  have length := conforms.flows
  by_cases block : d.kind = .block
  · obtain ⟨targets, free, same⟩ := conforms.compact block
    have present : presentCount (targets.map some ++ List.replicate free none) = targets.length := by
      rw [presentCount_append, presentCount_map_some, presentCount_replicate_none, Nat.add_zero]
    have kept : (targets.map some ++ List.replicate free none).filterMap id = targets := by
      simp
    rw [same, flowPorts, if_pos block, present, List.length_append, List.length_map,
      List.length_replicate] at length
    rw [laidOut_block block, same, present, kept, ← length, Nat.add_sub_cancel_left]
  · exact laidOut_of_length block length

theorem Conforms.layFlows_eq (conforms : n.Conforms d) : n.layFlows d = n := by
  rw [layFlows, conforms.laidOut_eq]

/-- A block with its targets moved together and a free flow output after them, and any other node as it
is. -/
def compacted (n : Node) : Node :=
  if n.kind = .block then
    { n with flows := n.targets.map some ++
        List.replicate (max 2 (presentCount n.flows + 1) - presentCount n.flows) none }
  else n

theorem compacted_other (other : n.kind ≠ .block) : n.compacted = n := if_neg other

/-- The flows of a block with some targets: these in order, and its free outputs after them. -/
def packed (targets : List Uid) : List (Option Uid) :=
  targets.map some ++ List.replicate (max 2 (targets.length + 1) - targets.length) none

theorem filterMap_packed (targets : List Uid) : (packed targets).filterMap id = targets := by
  simp [packed]

theorem compacted_block (block : n.kind = .block) :
    n.compacted = { n with flows := packed n.targets } := by
  rw [compacted, if_pos block, packed, targets, length_filterMap_id]

theorem targets_compacted (n : Node) : n.compacted.targets = n.targets := by
  by_cases block : n.kind = .block
  · rw [compacted_block block]
    exact filterMap_packed n.targets
  · rw [compacted_other block]

theorem Sized.layFlows_eq (sized : n.Sized d) (kind : d.kind = n.kind) :
    n.layFlows d = n.compacted := by
  by_cases block : d.kind = .block
  · rw [layFlows, laidOut_block block, compacted, if_pos (kind ▸ block), targets]
  · rw [(sized.conforms block).layFlows_eq, compacted_other (kind ▸ block)]

theorem Conforms.conform_eq (conforms : n.Conforms d) : n.conform d = n := by
  have values : d.initialValues.drop n.values.length = [] := by
    rw [List.drop_eq_nil_iff, Definition.initialValues, List.length_map]
    exact conforms.values
  rw [conform, conforms.laidOut_eq, values, List.append_nil, ← conforms.links, fitted_length]

/-! ## Connections -/

theorem mem_links_conform {link : Link} (listed : some link ∈ (n.conform d).links) :
    some link ∈ n.links :=
  mem_of_mem_fitted listed

theorem mem_flows_conform {target : Uid} (listed : some target ∈ (n.conform d).flows) :
    some target ∈ n.flows :=
  mem_of_mem_laidOut listed

theorem mem_flows_layFlows {target : Uid} (listed : some target ∈ (n.layFlows d).flows) :
    some target ∈ n.flows :=
  mem_of_mem_laidOut listed

theorem fresh_links {uid : Uid} {link : Link} : some link ∉ (fresh uid d).links :=
  fun listed => List.not_mem_nil (mem_links_conform listed)

theorem fresh_flows {uid target : Uid} : some target ∉ (fresh uid d).flows :=
  fun listed => List.not_mem_nil (mem_flows_conform listed)

/-! ## Literals -/

theorem Conforms.of_same {m : Node} (conforms : n.Conforms d) (links : m.links = n.links)
    (values : m.values.length = n.values.length) (flows : m.flows = n.flows) : m.Conforms d := by
  refine ⟨links ▸ conforms.links, values ▸ conforms.values, ?_, fun block => ?_⟩
  · rw [flows]
    exact conforms.flows
  · rw [flows]
    exact conforms.compact block

theorem length_settled (d : Definition) (first : Nat) (values : List Value) :
    (settled d first values).length = values.length := by
  induction values generalizing first with
  | nil => rfl
  | cons value values ih => rw [settled, List.length_cons, List.length_cons, ih]

theorem Conforms.settle (conforms : n.Conforms d) : (n.settle d).Conforms d := by
  refine ⟨conforms.links, ?_, conforms.flows, conforms.compact⟩
  change d.inputs.length ≤ (settled d 0 n.values).length
  rw [length_settled]
  exact conforms.values

theorem restored_conforms (terminals : List (Uid × Terminal)) (d : Definition) (n : Node) :
    (n.restored terminals d).Conforms d :=
  (conform_conforms _ d).settle

end Node

end ScriptGraph
