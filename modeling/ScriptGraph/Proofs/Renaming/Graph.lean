import ScriptGraph.Clipping.Plan
import ScriptGraph.Proofs.Catalog.Extension
import ScriptGraph.Proofs.Graph.Keys
import ScriptGraph.Proofs.Graph.Lookup
import ScriptGraph.Proofs.Lookup
import ScriptGraph.Snapshot

/-!
Renaming the nodes of a graph: their uids, whatever refers to them, and the literal by which a node
is bound to a variable. Names of kinds, variables and parameters are no uids and stay. The key of an
event for the changes of a variable is made of the uid of the variable, so that renaming could make two
events look like one; with uids that no full name mentions it does not.
-/

set_option autoImplicit false
set_option relaxedAutoImplicit false

namespace ScriptGraph

variable {ρ : Uid → Uid}

def Link.rename (ρ : Uid → Uid) (link : Link) : Link := { link with node := ρ link.node }

namespace Node

/-- The literals of a node that is bound to a variable, the uid of the variable renamed. -/
def renamedTarget (ρ : Uid → Uid) : List Value → List Value
  | .text uid :: rest => .text (ρ uid) :: rest
  | values => values

def rename (ρ : Uid → Uid) (n : Node) : Node :=
  { n with
    uid := ρ n.uid
    values := if n.access?.isSome then renamedTarget ρ n.values else n.values
    links := n.links.map (Option.map (Link.rename ρ))
    flows := n.flows.map (Option.map ρ) }

variable {n : Node}

@[simp] theorem rename_uid : (n.rename ρ).uid = ρ n.uid := rfl
@[simp] theorem rename_fullName : (n.rename ρ).fullName = n.fullName := rfl
@[simp] theorem rename_kind : (n.rename ρ).kind = n.kind := rfl
@[simp] theorem rename_isEvent : (n.rename ρ).isEvent = n.isEvent := rfl
@[simp] theorem rename_access? : (n.rename ρ).access? = n.access? := rfl
@[simp] theorem rename_isVariable : (n.rename ρ).isVariable = n.isVariable := rfl
@[simp] theorem rename_variableType? : (n.rename ρ).variableType? = n.variableType? := rfl
@[simp] theorem rename_links : (n.rename ρ).links = n.links.map (Option.map (Link.rename ρ)) := rfl
@[simp] theorem rename_flows : (n.rename ρ).flows = n.flows.map (Option.map ρ) := rfl

theorem rename_values (unbound : n.access? = none) : (n.rename ρ).values = n.values := by
  simp only [rename, unbound, Option.isSome_none, Bool.false_eq_true, if_false]

theorem renamedTarget_getElem? {values : List Value} {index : Nat} (later : 0 < index) :
    (renamedTarget ρ values)[index]? = values[index]? := by
  obtain ⟨index, rfl⟩ := Nat.exists_eq_succ_of_ne_zero (Nat.ne_of_gt later)
  unfold renamedTarget
  split
  · rw [List.getElem?_cons_succ, List.getElem?_cons_succ]
  · rfl

theorem rename_values_getElem? {index : Nat} (later : 0 < index) :
    (n.rename ρ).values[index]? = n.values[index]? := by
  rw [rename]
  dsimp only
  split
  · exact renamedTarget_getElem? later
  · rfl

theorem access?_of_isVariable (declares : n.isVariable) : n.access? = none := by
  have kind : n.kind = .variable := of_decide_eq_true declares
  rw [access?, kind]
  rfl

theorem rename_values_of_isVariable (declares : n.isVariable) :
    (n.rename ρ).values = n.values :=
  rename_values (access?_of_isVariable declares)

@[simp] theorem rename_variableName? : (n.rename ρ).variableName? = n.variableName? := by
  rw [variableName?, variableName?, rename_isVariable]
  split
  · rename_i declares
    rw [rename_values_of_isVariable declares]
  · rfl

private theorem text?_renamedTarget (values : List Value) :
    ((renamedTarget ρ values)[0]?.bind Value.text?) = (values[0]?.bind Value.text?).map ρ := by
  unfold renamedTarget
  split
  · rfl
  · rename_i other
    cases values with
    | nil => rfl
    | cons value rest => cases value <;> first | rfl | exact absurd rfl (other _ _)

theorem rename_target? (injective : ρ.Injective) (empty : ρ "" = "") :
    (n.rename ρ).target? = n.target?.map ρ := by
  rw [target?, target?, rename_access?]
  split
  · rename_i bound
    have hvalues : (n.rename ρ).values = renamedTarget ρ n.values := by
      simp only [rename, bound, if_true]
    rw [hvalues, text?_renamedTarget]
    cases n.values[0]?.bind Value.text? with
    | none => rfl
    | some uid =>
      have hempty : (ρ uid).isEmpty = uid.isEmpty := by
        rw [Bool.eq_iff_iff, String.isEmpty_iff, String.isEmpty_iff]
        constructor
        · exact fun heq => injective (heq.trans empty.symm)
        · rintro rfl
          exact empty
      rw [Option.map_some, Option.filter_some, Option.filter_some, hempty]
      split <;> rfl
  · rfl

end Node

def Graph.rename (ρ : Uid → Uid) (g : Graph) : Graph := g.mapNodes (Node.rename ρ)

namespace Graph

variable {g : Graph}

@[simp] theorem rename_nodes : (g.rename ρ).nodes = g.nodes.map (Node.rename ρ) := rfl
@[simp] theorem rename_name : (g.rename ρ).name = g.name := rfl
@[simp] theorem rename_updateOrder : (g.rename ρ).updateOrder = g.updateOrder := rfl

@[simp] theorem rename_uids : (g.rename ρ).uids = g.uids.map ρ := by
  simp only [uids, rename_nodes, List.map_map]
  rfl

theorem rename_find? (injective : ρ.Injective) (uid : Uid) :
    (g.rename ρ).find? (ρ uid) = (g.find? uid).map (Node.rename ρ) := by
  rw [find?, find?, rename_nodes, List.find?_map]
  congr 2
  funext n
  rw [Function.comp_apply, Node.rename_uid, Bool.eq_iff_iff, beq_iff_eq, beq_iff_eq]
  exact injective.eq_iff

theorem rename_targetName? (injective : ρ.Injective) (empty : ρ "" = "") (n : Node) :
    (g.rename ρ).targetName? (n.rename ρ) = g.targetName? n := by
  rw [targetName?, targetName?, Node.rename_target? injective empty]
  cases n.target? with
  | none => rfl
  | some uid =>
    rw [Option.map_some, Option.bind_some, Option.bind_some, rename_find? injective]
    cases g.find? uid with
    | none => rfl
    | some m => exact Node.rename_variableName?

theorem rename_filter {keeps keeps' : Node → Bool}
    (same : ∀ n ∈ g.nodes, keeps' (n.rename ρ) = keeps n) :
    (g.rename ρ).nodes.filter keeps' = (g.nodes.filter keeps).map (Node.rename ρ) := by
  rw [rename_nodes, List.filter_map]
  congr 1
  refine List.filter_congr fun n hn => ?_
  exact same n hn

theorem rename_eventNodes : (g.rename ρ).eventNodes = g.eventNodes.map (Node.rename ρ) :=
  rename_filter fun _ _ => Node.rename_isEvent

theorem rename_variableNodes :
    (g.rename ρ).variableNodes = g.variableNodes.map (Node.rename ρ) := by
  simp only [variableNodes, rename_nodes, List.filter_map, List.map_append, Function.comp_def,
    Node.rename_variableName?]

theorem rename_update (injective : ρ.Injective) {change change' : Node → Node}
    (same : ∀ n, change' (n.rename ρ) = (change n).rename ρ) (uid : Uid) :
    (g.rename ρ).update (ρ uid) change' = (g.update uid change).rename ρ := by
  have hnodes : ∀ nodes : List Node, updateFirst (ρ uid) change' (nodes.map (Node.rename ρ)) =
      (updateFirst uid change nodes).map (Node.rename ρ) := by
    intro nodes
    induction nodes with
    | nil => rfl
    | cons n nodes ih =>
      rw [List.map_cons, updateFirst, updateFirst, Node.rename_uid, ih]
      by_cases here : n.uid = uid
      · rw [if_pos (congrArg ρ here), if_pos here, same, List.map_cons]
      · rw [if_neg (fun heq => here (injective heq)), if_neg here, List.map_cons]
  simp only [update, rename, mapNodes, hnodes]

theorem rename_remove (injective : ρ.Injective) (uid : Uid) :
    (g.rename ρ).remove (ρ uid) = (g.remove uid).rename ρ := by
  have hsame : ((fun n : Node => n.uid == ρ uid) ∘ Node.rename ρ) = fun n => n.uid == uid := by
    funext n
    rw [Function.comp_apply, Node.rename_uid, Bool.eq_iff_iff, beq_iff_eq, beq_iff_eq]
    exact injective.eq_iff
  simp only [remove, rename, mapNodes, List.eraseP_map, hsame]

end Graph

end ScriptGraph

/-! ## Keys of single events -/

namespace ScriptGraph

namespace Node

def singleKey? (n : Node) : Option String := if n.isSingleEvent then some n.eventKey else none

theorem Echoes.singleKey? {m n : Node} (echoes : m.Echoes n) : m.singleKey? = n.singleKey? := by
  rw [Node.singleKey?, Node.singleKey?, isSingleEvent, isSingleEvent, eventKey, eventKey, isEvent,
    isEvent, kind, kind, echoes.fullName, echoes.target?]

theorem fullName_of_changeEvent {n : Node} (change : n.kind = .changeEvent) :
    n.fullName = Kind.changeEventName :=
  Kind.name_eq (by rw [kind] at change; rw [change]; decide) (change.trans (by decide))

theorem singleKey?_of_changeEvent {n : Node} (change : n.kind = .changeEvent) :
    n.singleKey? = some (Kind.changeEventName ++ "|" ++ n.target?.getD "") := by
  have isSingle : n.isSingleEvent := by
    rw [isSingleEvent, isEvent, change]
    rfl
  rw [singleKey?, if_pos isSingle, eventKey, if_pos change, fullName_of_changeEvent change]

theorem fullName_of_singleKey? {n : Node} {key : String} (other : n.kind ≠ .changeEvent)
    (keyed : n.singleKey? = some key) : n.fullName = key := by
  unfold singleKey? at keyed
  split at keyed
  · rw [eventKey, if_neg other] at keyed
    exact Option.some.inj keyed
  · cases keyed

theorem singleKey?_rename {n : Node} {ρ : Uid → Uid} (other : n.kind ≠ .changeEvent) :
    (n.rename ρ).singleKey? = n.singleKey? := by
  have same : (n.rename ρ).isSingleEvent = n.isSingleEvent := rfl
  have kept : (n.rename ρ).kind ≠ .changeEvent := other
  rw [singleKey?, singleKey?, same, eventKey, eventKey, if_neg kept, if_neg other]
  rfl

theorem rename_target?_getD {n : Node} {ρ : Uid → Uid} (injective : ρ.Injective) (empty : ρ "" = "") :
    (n.rename ρ).target?.getD "" = ρ (n.target?.getD "") := by
  rw [rename_target? injective empty]
  cases n.target? with
  | none => exact empty.symm
  | some uid => rfl

end Node

theorem Graph.Unique.rename {g : Graph} {ρ : Uid → Uid} (unique : g.Unique Node.singleKey?)
    (injective : ρ.Injective) (empty : ρ "" = "")
    (stays : ∀ n ∈ g.nodes, ∀ u, n.target? = some u → u ∉ g.uids → ρ u = u)
    (unheard : ∀ n ∈ g.nodes, ∀ u ∈ g.uids, n.fullName ≠ Kind.changeEventName ++ "|" ++ ρ u) :
    (g.rename ρ).Unique Node.singleKey? := by
  have mixed : ∀ n ∈ g.nodes, ∀ m ∈ g.nodes, n.uid ≠ m.uid → n.kind = .changeEvent →
      m.kind ≠ .changeEvent → (n.rename ρ).singleKey? ≠ m.singleKey? := by
    intro n hn m hm differ change other same
    rw [Node.singleKey?_of_changeEvent (n := n.rename ρ) change,
      Node.rename_target?_getD injective empty] at same
    by_cases listed : n.target?.getD "" ∈ g.uids
    · exact unheard m hm _ listed (Node.fullName_of_singleKey? other same.symm)
    · have kept : ρ (n.target?.getD "") = n.target?.getD "" := by
        cases bound : n.target? with
        | none => exact empty
        | some u => exact stays n hn u bound (by rwa [bound] at listed)
      rw [kept] at same
      exact unique n hn m hm differ _ (Node.singleKey?_of_changeEvent change) same.symm
  rintro _ here _ there differ key first second
  obtain ⟨n, hn, rfl⟩ := List.mem_map.mp here
  obtain ⟨m, hm, rfl⟩ := List.mem_map.mp there
  have differ : n.uid ≠ m.uid := fun same => differ (congrArg ρ same)
  by_cases change : n.kind = .changeEvent <;> by_cases change' : m.kind = .changeEvent
  · have same := first.trans second.symm
    rw [Node.singleKey?_of_changeEvent (n := n.rename ρ) change,
      Node.singleKey?_of_changeEvent (n := m.rename ρ) change', Option.some.injEq,
      String.append_right_inj, Node.rename_target?_getD injective empty,
      Node.rename_target?_getD injective empty] at same
    refine unique n hn m hm differ _ (Node.singleKey?_of_changeEvent change) ?_
    rw [injective same]
    exact Node.singleKey?_of_changeEvent change'
  · rw [Node.singleKey?_rename change'] at second
    exact mixed n hn m hm differ change change' (first.trans second.symm)
  · rw [Node.singleKey?_rename change] at first
    exact mixed m hm n hn (Ne.symm differ) change' change (second.trans first.symm)
  · rw [Node.singleKey?_rename change] at first
    rw [Node.singleKey?_rename change'] at second
    exact unique n hn m hm differ key first second

end ScriptGraph
