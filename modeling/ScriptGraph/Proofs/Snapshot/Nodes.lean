import ScriptGraph.Proofs.Graph.Reached
import ScriptGraph.Proofs.Snapshot.Cycles
import ScriptGraph.Proofs.Snapshot.Reported

/-!
The nodes of a snapshot, in order. They are those nodes of the graph that are neither comments nor
undefined nor bound to a variable that is not there, with their literals settled.
-/

set_option autoImplicit false
set_option relaxedAutoImplicit false

namespace ScriptGraph

open Relation (TransGen)

namespace Node

/-- What a node of a graph is in a snapshot, apart from its connections. -/
structure Kept (d : Definition) (n m : Node) : Prop where
  uid : m.uid = n.uid
  fullName : m.fullName = n.fullName
  values : m.values = settled d 0 (completed d n)

namespace Kept

variable {d : Definition} {n m : Node}

theorem kind (kept : Kept d n m) : m.kind = n.kind := congrArg Kind.ofName kept.fullName

theorem isEvent (kept : Kept d n m) : m.isEvent = n.isEvent := congrArg Kind.isEvent kept.kind

theorem isVariable (kept : Kept d n m) : m.isVariable = n.isVariable := by
  rw [Node.isVariable, Node.isVariable, kept.kind]

theorem access? (kept : Kept d n m) : m.access? = n.access? := congrArg Kind.access? kept.kind

theorem variableType? (kept : Kept d n m) : m.variableType? = n.variableType? :=
  congrArg (Text.stripStart? Kind.variablePrefix) kept.fullName

theorem fit (kept : Kept d n m) : Fit d m.values := by
  rw [kept.values]
  exact settle_fit { n with values := completed d n } d

theorem getElem? (kept : Kept d n m) (index : Nat) : m.values[index]? =
    (completed d n)[index]?.map fun value =>
      if value.fits (d.inputType index) then value else .defaultFor (d.inputType index) := by
  rw [kept.values, getElem?_settled]

theorem text? (kept : Kept d n m) {index : Nat} (typed : d.inputType index = some textType) :
    m.values[index]?.bind Value.text? = (completed d n)[index]?.bind Value.text? := by
  rw [kept.values, settled_text? typed]

theorem variableName? {name : String} (kept : Kept d n m) (typed : d.inputType nameInput = some textType)
    (named : n.variableName? = some name) : m.variableName? = some name := by
  rw [Node.variableName?] at named ⊢
  split at named
  · rename_i declares
    obtain ⟨value, there, text⟩ := Option.bind_eq_some_iff.mp named
    rw [if_pos (kept.isVariable ▸ declares), kept.text? typed, getElem?_completed, there,
      Option.some_or, Option.bind_some, text]
  · cases named

theorem target? {c : Catalog} (kept : Kept d n m) (extension : c.Extends)
    (defined : c.find? n.fullName = some d) : m.target? = n.target? := by
  rw [Node.target?, Node.target?, kept.access?]
  split
  · rename_i access
    have uses : d.kind.access?.isSome := by
      rw [Catalog.find?_kind defined]
      exact access
    rw [kept.text? (extension.inputType_of_access defined uses), getElem?_completed]
    cases n.values[0]? with
    | some value => rfl
    | none => rw [Option.none_or, extension.unbound_of_access defined uses, Option.bind_none]
  · rfl

end Kept

end Node

namespace Graph

variable {c : Catalog} {g : Graph} {n m : Node}

theorem foldl_remove_eq (uids : List Uid) (distinct : g.uids.Nodup) :
    uids.foldl remove g = g.keeping fun n => n.uid ∉ uids := by
  have rest : ∀ h : Graph, uids.foldl remove h = { h with nodes := (uids.foldl remove h).nodes } := by
    induction uids with
    | nil => exact fun _ => rfl
    | cons uid uids ih => exact fun h => ih (h.remove uid)
  rw [rest, nodes_foldl_remove uids distinct, keeping]

theorem removeUnresolved_eq (distinct : g.uids.Nodup) : g.removeUnresolved.1 =
    g.keeping fun n => n.access?.isNone || (g.targetName? n).isSome := by
  have removed : g.removeUnresolved.1 = g.keeping fun n => n.uid ∉ g.unresolved :=
    foldl_remove_eq g.unresolved distinct
  rw [removed, keeping, keeping]
  congr 1
  refine List.filter_congr fun n listed => ?_
  have left : n ∈ g.removeUnresolved.1.nodes ↔ _ := mem_removeUnresolved distinct
  rw [removed, keeping, List.mem_filter, and_iff_right listed, and_iff_right listed] at left
  rw [Bool.eq_iff_iff, left, Bool.or_eq_true, ← Option.not_isSome, Bool.not_eq_true', ← Bool.not_eq_true]
  exact Decidable.imp_iff_not_or

theorem distinct_resolved (distinct : g.uids.Nodup) : (g.resolved c).uids.Nodup :=
  (resolved_removeUndefined distinct).distinct

theorem mem_resolved (distinct : g.uids.Nodup) : n ∈ (g.resolved c).nodes ↔
    n ∈ g.nodes ∧ n.kind ≠ .comment ∧ (c.find? n.fullName).isSome ∧
      (n.access?.isSome → ((g.removeComments.removeUndefined c).1.targetName? n).isSome) := by
  have apart := distinct_removeUndefined c distinct
  rw [resolved, mem_removeUnresolved apart, removeUndefined, removeComments, List.mem_filter,
    List.mem_filter, decide_eq_true_iff, and_assoc, and_assoc]

theorem mem_resolved_of_variable (distinct : g.uids.Nodup) (listed : n ∈ g.nodes)
    (kind : n.kind = .variable) (defined : (c.find? n.fullName).isSome) : n ∈ (g.resolved c).nodes := by
  refine (mem_resolved distinct).mpr ⟨listed, ?_, defined, ?_⟩
  · rw [kind]
    decide
  · rw [Node.access?, kind]
    exact fun access => by cases access

theorem resolved_eq_keeping (c : Catalog) (distinct : g.uids.Nodup) :
    ∃ keep, g.resolved c = g.keeping keep := by
  have apart := distinct_removeUndefined c distinct
  exact ⟨_, (removeUnresolved_eq apart).trans
    ((keeping_keeping _ _ g.removeComments).trans (keeping_keeping _ _ g))⟩

theorem snapshot_eq (c : Catalog) (distinct : g.uids.Nodup) : ∃ flows,
    (g.snapshot c).1 = (g.resolved c).mapNodes fun n =>
      (restoredBy c ((g.resolved c).terminals c) n).withoutFlows flows := by
  have apart : ((g.resolved c).restoreConnections c).1.uids.Nodup := by
    have same : ((g.resolved c).restoreConnections c).1.uids = (g.resolved c).uids :=
      uids_mapNodes (restoredBy_uid c _)
    rw [same]
    exact distinct_resolved distinct
  refine ⟨((g.resolved c).restoreConnections c).1.closingFlows, ?_⟩
  change ((g.resolved c).restoreConnections c).1.breakFlowCycles.1 = _
  rw [breakFlowCycles, clearFlows_eq apart]
  change Graph.mapNodes (Graph.mapNodes _ (restoredBy c _)) _ = _
  rw [mapNodes, mapNodes, mapNodes, List.map_map]
  rfl

theorem snapshot_of_acyclic (c : Catalog) (distinct : g.uids.Nodup)
    (acyclic : ∀ u, ¬TransGen g.Leads u u) :
    (g.snapshot c).1 = (g.resolved c).mapNodes (restoredBy c ((g.resolved c).terminals c)) := by
  obtain ⟨keep, left⟩ := resolved_eq_keeping c distinct
  have onward : ∀ u, ¬TransGen ((g.resolved c).restoreConnections c).1.Leads u u := by
    refine fun u cycle => acyclic u (TransGen.mono (fun u v leads => ?_) u u cycle)
    have inside := restoreConnections_leads leads
    rw [left] at inside
    exact (fewer_of_sublist (keeping_sublist keep g)).flows u v inside
  change ((g.resolved c).restoreConnections c).1.breakFlowCycles.1 = _
  rw [breakFlowCycles_of_acyclic onward]
  rfl

theorem kept_restoredBy {d : Definition} (defined : c.find? n.fullName = some d)
    (terminals : List (Uid × Terminal)) (flows : List (Uid × Nat)) :
    Node.Kept d n ((restoredBy c terminals n).withoutFlows flows) := by
  rw [restoredBy_eq defined]
  exact ⟨rfl, rfl, rfl⟩

theorem mem_snapshot (distinct : g.uids.Nodup) (listed : m ∈ (g.snapshot c).1.nodes) :
    ∃ n ∈ (g.resolved c).nodes, ∃ d, c.find? n.fullName = some d ∧ Node.Kept d n m := by
  obtain ⟨flows, same⟩ := snapshot_eq c distinct
  rw [same] at listed
  obtain ⟨n, left, rfl⟩ := List.mem_map.mp listed
  obtain ⟨d, defined⟩ := (resolved_removeUndefined distinct).defined n left
  exact ⟨n, left, d, defined, kept_restoredBy defined _ _⟩

theorem find?_snapshot {d : Definition} (distinct : g.uids.Nodup) (left : n ∈ (g.resolved c).nodes)
    (defined : c.find? n.fullName = some d) :
    ∃ m, (g.snapshot c).1.find? n.uid = some m ∧ Node.Kept d n m := by
  obtain ⟨flows, same⟩ := snapshot_eq c distinct
  refine ⟨_, ?_, kept_restoredBy defined ((g.resolved c).terminals c) flows⟩
  have uid : ∀ m : Node, ((restoredBy c ((g.resolved c).terminals c) m).withoutFlows flows).uid = m.uid :=
    fun m => restoredBy_uid c _ m
  rw [same, find?_mapNodes uid, find?_of_mem (distinct_resolved distinct) left, Option.map_some]

theorem targetName?_snapshot {d : Definition} (extension : c.Extends) (texts : c.NamesByText)
    (distinct : g.uids.Nodup) (left : n ∈ (g.resolved c).nodes) (defined : c.find? n.fullName = some d)
    (kept : Node.Kept d n m) :
    (g.snapshot c).1.targetName? m = (g.removeComments.removeUndefined c).1.targetName? n := by
  by_cases access : n.access?.isSome
  · obtain ⟨name, target⟩ :=
      Option.isSome_iff_exists.mp (((mem_resolved distinct).mp left).2.2.2 access)
    rw [target]
    obtain ⟨uid, bound, target⟩ := Option.bind_eq_some_iff.mp target
    obtain ⟨v, found, named⟩ := Option.bind_eq_some_iff.mp target
    obtain ⟨shown, stands⟩ := List.mem_filter.mp (find?_mem found)
    obtain ⟨e, declared⟩ := Option.isSome_iff_exists.mp stands
    have kind : v.kind = .variable := kind_of_variableName? named
    have stays : v ∈ (g.resolved c).nodes :=
      mem_resolved_of_variable distinct (List.mem_filter.mp shown).1 kind stands
    obtain ⟨w, alsoFound, same⟩ := find?_snapshot distinct stays declared
    rw [targetName?, kept.target? extension defined, bound, Option.bind_some, ← find?_uid found,
      alsoFound, Option.bind_some]
    exact same.variableName? (texts _ _ declared kind) named
  · rw [targetName?, targetName?, Node.target?, Node.target?, kept.access?, if_neg access, if_neg access]
    rfl

theorem find?_of_snapshot (distinct : g.uids.Nodup) {uid : Uid}
    (found : (g.snapshot c).1.find? uid = some m) :
    ∃ n d, g.find? uid = some n ∧ c.find? n.fullName = some d ∧ Node.Kept d n m := by
  obtain ⟨n, left, d, defined, kept⟩ := mem_snapshot distinct (find?_mem found)
  refine ⟨n, d, ?_, defined, kept⟩
  rw [← find?_uid found, kept.uid]
  exact find?_of_mem distinct (mem_of_mem_resolved distinct left)

end Graph

end ScriptGraph
