import ScriptGraph.Proofs.Catalog.Extension
import ScriptGraph.Proofs.Snapshot.Restored
import ScriptGraph.Proofs.Snapshot.Search

/-!
Snapshots are repaired: every node has a definition, every connection is live, every use of a variable
finds it, and flows form no cycle.
-/

set_option autoImplicit false
set_option relaxedAutoImplicit false

namespace ScriptGraph

namespace Graph

/-- All nodes have definitions, all connections are live, and flows form no cycle. -/
structure Live (c : Catalog) (g : Graph) : Prop where
  distinct : g.uids.Nodup
  defined : ∀ n ∈ g.nodes, ∃ d, c.find? n.fullName = some d
  links : ∀ n ∈ g.nodes, ∀ link, some link ∈ n.links →
    ∃ m d, g.find? link.node = some m ∧ c.find? m.fullName = some d ∧
      link.output < d.outputs.length
  flows : ∀ n ∈ g.nodes, ∀ target, some target ∈ n.flows →
    ∃ m d, g.find? target = some m ∧ c.find? m.fullName = some d ∧ d.hasFlowInput
  acyclic : ∃ rank : Uid → Nat, (∀ uid, rank uid ≤ g.nodes.length) ∧
    ∀ n ∈ g.nodes, ∀ target, some target ∈ n.flows → rank target < rank n.uid

def Bound (g : Graph) : Prop :=
  ∀ n ∈ g.nodes, n.access?.isSome → ∃ name, g.targetName? n = some name

/-- What a snapshot guarantees to compiling. -/
structure Repaired (c : Catalog) (g : Graph) : Prop extends Live c g where
  bound : g.Bound

/-! ## Removing nodes -/

theorem nodes_foldl_remove {g : Graph} (uids : List Uid) (distinct : g.uids.Nodup) :
    (uids.foldl remove g).nodes = g.nodes.filter fun n => n.uid ∉ uids := by
  induction uids generalizing g with
  | nil => simp
  | cons uid uids ih =>
    have hdistinct : (g.remove uid).uids.Nodup :=
      distinct.sublist ((List.eraseP_sublist).map Node.uid)
    rw [List.foldl_cons, ih hdistinct, nodes_remove distinct, List.filter_filter]
    congr 1
    funext n
    simp only [List.mem_cons, not_or, Bool.decide_and, Bool.and_comm]

theorem mem_removeUnresolved {g : Graph} (distinct : g.uids.Nodup) {n : Node} :
    n ∈ g.removeUnresolved.1.nodes ↔
      n ∈ g.nodes ∧ (n.access?.isSome → (g.targetName? n).isSome) := by
  change n ∈ (g.unresolved.foldl remove g).nodes ↔ _
  rw [nodes_foldl_remove _ distinct, List.mem_filter, decide_eq_true_iff]
  refine and_congr_right fun listed => ?_
  have hunresolved : n.uid ∈ g.unresolved ↔ n.access?.isSome ∧ g.targetName? n = none := by
    constructor
    · intro hmem
      obtain ⟨m, hm, hsame⟩ := List.mem_map.mp hmem
      obtain ⟨hm, hcondition⟩ := List.mem_filter.mp hm
      obtain rfl := List.inj_on_of_nodup_map distinct hm listed hsame
      simpa using hcondition
    · intro hcondition
      exact List.mem_map.mpr ⟨n, List.mem_filter.mpr ⟨listed, by simpa using hcondition⟩, rfl⟩
  rw [hunresolved, not_and, ← ne_eq, ← Option.isSome_iff_ne_none]

private theorem distinct_removeUnresolved {g : Graph} (distinct : g.uids.Nodup) :
    g.removeUnresolved.1.uids.Nodup := by
  change ((g.unresolved.foldl remove g).nodes.map Node.uid).Nodup
  rw [nodes_foldl_remove _ distinct]
  exact distinct.sublist (List.filter_sublist.map Node.uid)

theorem kind_of_variableName? {n : Node} {name : String}
    (named : n.variableName? = some name) : n.kind = .variable := by
  rw [Node.variableName?] at named
  split at named
  · rename_i declares
    exact of_decide_eq_true declares
  · cases named

theorem Bound.exists_declaration {g : Graph} {n : Node} (bound : g.Bound) (listed : n ∈ g.nodes)
    (access : n.access?.isSome) : ∃ uid m name,
      n.target? = some uid ∧ g.find? uid = some m ∧ m.kind = .variable ∧
        m.variableName? = some name := by
  obtain ⟨name, targeted⟩ := bound n listed access
  obtain ⟨uid, target, named⟩ := Option.bind_eq_some_iff.mp targeted
  obtain ⟨m, found, named⟩ := Option.bind_eq_some_iff.mp named
  exact ⟨uid, m, name, target, found, kind_of_variableName? named, named⟩

/-- What is left when nodes without definition and nodes bound to missing variables are gone. -/
structure Resolved (c : Catalog) (g : Graph) : Prop where
  distinct : g.uids.Nodup
  defined : ∀ n ∈ g.nodes, ∃ d, c.find? n.fullName = some d
  bound : g.Bound

theorem resolved_removeUnresolved {c : Catalog} {g : Graph} (distinct : g.uids.Nodup)
    (defined : ∀ n ∈ g.nodes, ∃ d, c.find? n.fullName = some d) :
    g.removeUnresolved.1.Resolved c := by
  have hdistinct := distinct_removeUnresolved distinct
  refine ⟨hdistinct, fun n hn => ?_, fun n hn access => ?_⟩
  · exact defined n ((mem_removeUnresolved distinct).mp hn).1
  · obtain ⟨-, hbound⟩ := (mem_removeUnresolved distinct).mp hn
    obtain ⟨name, hname⟩ := Option.isSome_iff_exists.mp (hbound access)
    obtain ⟨uid, htarget, hname⟩ := Option.bind_eq_some_iff.mp hname
    obtain ⟨m, found, named⟩ := Option.bind_eq_some_iff.mp hname
    -- A declaration is not bound to a variable itself, so it was not removed.
    have hkept : m ∈ g.removeUnresolved.1.nodes := by
      refine (mem_removeUnresolved distinct).mpr ⟨find?_mem found, fun bound => ?_⟩
      rw [Node.access?, kind_of_variableName? named] at bound
      cases bound
    refine ⟨name, Option.bind_eq_some_iff.mpr ⟨uid, htarget, ?_⟩⟩
    rw [(find?_eq_some_iff hdistinct).mpr ⟨hkept, find?_uid found⟩]
    exact named

/-! ## Restoring connections -/

def restoredBy (c : Catalog) (terminals : List (Uid × Terminal)) (n : Node) : Node :=
  match c.find? n.fullName with
  | some d => n.restored terminals d
  | none => n

theorem restoredBy_eq {c : Catalog} {terminals : List (Uid × Terminal)} {n : Node}
    {d : Definition} (found : c.find? n.fullName = some d) :
    restoredBy c terminals n = n.restored terminals d := by
  simp only [restoredBy, found]

theorem restoredBy_uid (c : Catalog) (terminals : List (Uid × Terminal)) (n : Node) :
    (restoredBy c terminals n).uid = n.uid := by
  unfold restoredBy
  split <;> rfl

theorem terminal_found {c : Catalog} {g : Graph} {uid : Uid} {terminal : Terminal}
    (distinct : g.uids.Nodup) (found : (g.terminals c).lookup uid = some terminal) :
    ∃ n d, g.find? uid = some n ∧ c.find? n.fullName = some d ∧
      terminal = ⟨d.outputs.length, d.hasFlowInput⟩ := by
  obtain ⟨n, hn, hentry⟩ :=
    List.mem_filterMap.mp (List.mem_reverse.mp (mem_of_lookup_eq_some found))
  obtain ⟨d, hd, hsame⟩ := Option.map_eq_some_iff.mp hentry
  cases hsame
  exact ⟨n, d, find?_of_mem distinct hn, hd, rfl⟩

theorem find?_restoreConnections {c : Catalog} {g : Graph} {uid : Uid} {n : Node}
    {d : Definition} (found : g.find? uid = some n) (defined : c.find? n.fullName = some d) :
    (g.restoreConnections c).1.find? uid = some (n.restored (g.terminals c) d) := by
  have hgraph : (g.restoreConnections c).1 = g.mapNodes (restoredBy c (g.terminals c)) := rfl
  rw [hgraph, find?_mapNodes (restoredBy_uid c (g.terminals c)), found, Option.map_some,
    restoredBy_eq defined]

theorem mem_restoreConnections {c : Catalog} {g : Graph}
    (defined : ∀ n ∈ g.nodes, ∃ d, c.find? n.fullName = some d) {n : Node}
    (listed : n ∈ (g.restoreConnections c).1.nodes) : ∃ m ∈ g.nodes, ∃ d,
      c.find? m.fullName = some d ∧ n = m.restored (g.terminals c) d := by
  obtain ⟨m, hm, rfl⟩ := List.mem_map.mp listed
  obtain ⟨d, hd⟩ := defined m hm
  exact ⟨m, hm, d, hd, restoredBy_eq hd⟩

/-- A graph all of whose connections are live. -/
structure Connected (c : Catalog) (g : Graph) : Prop where
  distinct : g.uids.Nodup
  defined : ∀ n ∈ g.nodes, ∃ d, c.find? n.fullName = some d
  links : ∀ n ∈ g.nodes, ∀ link, some link ∈ n.links →
    ∃ m d, g.find? link.node = some m ∧ c.find? m.fullName = some d ∧
      link.output < d.outputs.length
  flows : ∀ n ∈ g.nodes, ∀ target, some target ∈ n.flows →
    ∃ m d, g.find? target = some m ∧ c.find? m.fullName = some d ∧ d.hasFlowInput

theorem connected_restoreConnections {c : Catalog} {g : Graph} (distinct : g.uids.Nodup)
    (defined : ∀ n ∈ g.nodes, ∃ d, c.find? n.fullName = some d) :
    (g.restoreConnections c).1.Connected c := by
  have hgraph : (g.restoreConnections c).1 = g.mapNodes (restoredBy c (g.terminals c)) := rfl
  refine ⟨?_, ?_, ?_, ?_⟩
  · rw [hgraph, uids_mapNodes (restoredBy_uid c (g.terminals c))]
    exact distinct
  · intro n hn
    obtain ⟨m, -, d, hd, rfl⟩ := mem_restoreConnections defined hn
    exact ⟨d, hd⟩
  · intro n hn link listed
    obtain ⟨m, hm, d, hd, rfl⟩ := mem_restoreConnections defined hn
    obtain ⟨terminal, hterminal, inside⟩ := Node.restored_links listed
    obtain ⟨v, e, found, he, rfl⟩ := terminal_found distinct hterminal
    exact ⟨_, e, find?_restoreConnections found he, he, inside⟩
  · intro n hn target listed
    obtain ⟨m, hm, d, hd, rfl⟩ := mem_restoreConnections defined hn
    obtain ⟨terminal, hterminal, flowInput⟩ := Node.restored_flows listed
    obtain ⟨v, e, found, he, rfl⟩ := terminal_found distinct hterminal
    exact ⟨_, e, find?_restoreConnections found he, he, flowInput⟩

theorem bound_restoreConnections {c : Catalog} {g : Graph} (extension : c.Extends)
    (texts : c.NamesByText) (resolved : g.Resolved c) : (g.restoreConnections c).1.Bound := by
  intro n hn access
  obtain ⟨m, hm, d, hd, rfl⟩ := mem_restoreConnections resolved.defined hn
  obtain ⟨name, hname⟩ := resolved.bound m hm access
  obtain ⟨uid, htarget, hname⟩ := Option.bind_eq_some_iff.mp hname
  obtain ⟨v, found, named⟩ := Option.bind_eq_some_iff.mp hname
  obtain ⟨e, he⟩ := resolved.defined v (find?_mem found)
  have typed : d.inputType 0 = some textType :=
    extension.inputType_of_access hd (by rw [Catalog.find?_kind hd]; exact access)
  have hkept : (v.restored (g.terminals c) e).variableName? = some name :=
    Node.variableName?_restored named (texts v.fullName e he (kind_of_variableName? named))
  refine ⟨name, Option.bind_eq_some_iff.mpr ⟨uid, Node.target?_restored htarget typed, ?_⟩⟩
  rw [find?_restoreConnections found he, Option.bind_some, hkept]

/-! ## Breaking cycles of flow -/

def unflowed (n : Node) : Node := { n with flows := [] }

theorem eq_of_unflowed {α : Type} {n m : Node} (same : unflowed n = unflowed m)
    (view : Node → α) (blind : ∀ k, view (unflowed k) = view k) : view n = view m := by
  rw [← blind n, same, blind]

theorem uids_clearFlows (g : Graph) (flows : List (Uid × Nat)) :
    (g.clearFlows flows).uids = g.uids := by
  induction flows generalizing g with
  | nil => rfl
  | cons flow flows ih => exact (ih _).trans (uids_update (clearFlow_uid flow.2))

private theorem find?_clearFlows (g : Graph) (flows : List (Uid × Nat)) (uid : Uid) :
    ((g.clearFlows flows).find? uid).map unflowed = (g.find? uid).map unflowed := by
  induction flows generalizing g with
  | nil => rfl
  | cons flow flows ih =>
    refine (ih _).trans ?_
    simp only
    rw [find?_update (clearFlow_uid flow.2)]
    split
    · rename_i same
      rw [same, Option.map_map]
      rfl
    · rfl

private theorem exists_rank {g : Graph} (number : Uid → Nat)
    (falls : ∀ n ∈ g.nodes, ∀ target, some target ∈ n.flows →
      target ∈ g.uids ∧ number target < number n.uid) :
    ∃ rank : Uid → Nat, (∀ uid, rank uid ≤ g.nodes.length) ∧
      ∀ n ∈ g.nodes, ∀ target, some target ∈ n.flows → rank target < rank n.uid := by
  refine ⟨fun uid => g.uids.countP fun other => number other < number uid, fun uid => ?_, ?_⟩
  · exact Nat.le_trans List.countP_le_length (Nat.le_of_eq (List.length_map _))
  · intro n hn target listed
    obtain ⟨live, less⟩ := falls n hn target listed
    obtain ⟨before, after, hsplit⟩ := List.append_of_mem live
    have hmono : ∀ uids : List Uid, (uids.countP fun other => number other < number target) ≤
        uids.countP fun other => number other < number n.uid := by
      intro uids
      refine List.countP_mono_left fun other _ hless => ?_
      exact decide_eq_true (Nat.lt_trans (of_decide_eq_true hless) less)
    have hbefore := hmono before
    have hafter := hmono after
    simp only [hsplit, List.countP_append, List.countP_cons, decide_eq_true less, Nat.lt_irrefl,
      decide_false]
    simp only [Bool.false_eq_true, if_false, if_true]
    omega

private theorem find?_of_breakFlowCycles {g : Graph} {uid : Uid} {n : Node}
    (found : g.breakFlowCycles.1.find? uid = some n) :
    ∃ m, g.find? uid = some m ∧ unflowed n = unflowed m := by
  have hsame := find?_clearFlows g g.closingFlows uid
  rw [show (g.clearFlows g.closingFlows).find? uid = some n from found] at hsame
  obtain ⟨m, hm, hsame⟩ := Option.map_eq_some_iff.mp hsame.symm
  exact ⟨m, hm, hsame.symm⟩

theorem find?_breakFlowCycles {g : Graph} {uid : Uid} {m : Node}
    (found : g.find? uid = some m) :
    ∃ n, g.breakFlowCycles.1.find? uid = some n ∧ unflowed n = unflowed m := by
  have hsame := find?_clearFlows g g.closingFlows uid
  rw [found, Option.map_some] at hsame
  exact Option.map_eq_some_iff.mp hsame

private theorem distinct_breakFlowCycles {g : Graph} (distinct : g.uids.Nodup) :
    g.breakFlowCycles.1.uids.Nodup := by
  have huids : g.breakFlowCycles.1.uids = g.uids := uids_clearFlows g g.closingFlows
  rw [huids]
  exact distinct

theorem mem_breakFlowCycles {g : Graph} (distinct : g.uids.Nodup) {n : Node}
    (listed : n ∈ g.breakFlowCycles.1.nodes) : ∃ m ∈ g.nodes, unflowed n = unflowed m := by
  obtain ⟨m, hm, hsame⟩ :=
    find?_of_breakFlowCycles (find?_of_mem (distinct_breakFlowCycles distinct) listed)
  exact ⟨m, find?_mem hm, hsame⟩

theorem bound_breakFlowCycles {g : Graph} (distinct : g.uids.Nodup) (bound : g.Bound) :
    g.breakFlowCycles.1.Bound := by
  intro n hn access
  obtain ⟨m, hm, hsame⟩ := mem_breakFlowCycles distinct hn
  rw [eq_of_unflowed hsame Node.access? fun _ => rfl] at access
  obtain ⟨name, hname⟩ := bound m hm access
  obtain ⟨uid, htarget, hname⟩ := Option.bind_eq_some_iff.mp hname
  obtain ⟨v, found, named⟩ := Option.bind_eq_some_iff.mp hname
  obtain ⟨w, hw, hsame'⟩ := find?_breakFlowCycles found
  refine ⟨name, Option.bind_eq_some_iff.mpr ⟨uid, ?_, ?_⟩⟩
  · rw [eq_of_unflowed hsame Node.target? fun _ => rfl]
    exact htarget
  · rw [hw, Option.bind_some, eq_of_unflowed hsame' Node.variableName? fun _ => rfl]
    exact named

theorem live_breakFlowCycles {c : Catalog} {g : Graph} (connected : g.Connected c) :
    g.breakFlowCycles.1.Live c := by
  have hdistinct := distinct_breakFlowCycles connected.distinct
  have hflow : ∀ n ∈ g.breakFlowCycles.1.nodes, ∀ target, some target ∈ n.flows →
      ∃ index, g.Flow n.uid index target ∧ (n.uid, index) ∉ g.closingFlows := by
    intro n hn target listed
    obtain ⟨index, hindex⟩ := List.mem_iff_getElem?.mp listed
    exact ⟨index, flow_of_clearFlows ⟨n, find?_of_mem hdistinct hn, hindex⟩⟩
  have hlive : ∀ n ∈ g.breakFlowCycles.1.nodes, ∀ target, some target ∈ n.flows →
      ∃ m d, g.breakFlowCycles.1.find? target = some m ∧ c.find? m.fullName = some d ∧
        d.hasFlowInput := by
    intro n hn target listed
    obtain ⟨index, ⟨old, hold, hindex⟩, -⟩ := hflow n hn target listed
    obtain ⟨m, d, hm, hd, flowInput⟩ :=
      connected.flows old (find?_mem hold) target (List.mem_of_getElem? hindex)
    obtain ⟨v, hv, hsame⟩ := find?_breakFlowCycles hm
    refine ⟨v, d, hv, ?_, flowInput⟩
    rwa [eq_of_unflowed hsame Node.fullName fun _ => rfl]
  obtain ⟨number, falls⟩ := Search.exists_numbering g
  refine ⟨hdistinct, ?_, ?_, hlive, ?_⟩
  · intro n hn
    obtain ⟨m, hm, hsame⟩ := mem_breakFlowCycles connected.distinct hn
    rw [eq_of_unflowed hsame Node.fullName fun _ => rfl]
    exact connected.defined m hm
  · intro n hn link listed
    obtain ⟨m, hm, hsame⟩ := mem_breakFlowCycles connected.distinct hn
    rw [eq_of_unflowed hsame Node.links fun _ => rfl] at listed
    obtain ⟨v, d, hv, hd, inside⟩ := connected.links m hm link listed
    obtain ⟨w, hw, hsame⟩ := find?_breakFlowCycles hv
    refine ⟨w, d, hw, ?_, inside⟩
    rwa [eq_of_unflowed hsame Node.fullName fun _ => rfl]
  · refine exists_rank number fun n hn target listed => ?_
    obtain ⟨m, -, hm, -, -⟩ := hlive n hn target listed
    obtain ⟨index, leads, kept⟩ := hflow n hn target listed
    exact ⟨find?_uid hm ▸ uid_mem (find?_mem hm), falls n.uid index target leads kept⟩

theorem distinct_removeUndefined (c : Catalog) {g : Graph} (distinct : g.uids.Nodup) :
    (g.removeComments.removeUndefined c).1.uids.Nodup :=
  distinct.sublist ((List.filter_sublist.trans List.filter_sublist).map Node.uid)

theorem resolved_removeUndefined {c : Catalog} {g : Graph} (distinct : g.uids.Nodup) :
    (g.removeComments.removeUndefined c).1.removeUnresolved.1.Resolved c := by
  have hdefined : ∀ n ∈ (g.removeComments.removeUndefined c).1.nodes,
      ∃ d, c.find? n.fullName = some d := by
    intro n hn
    exact Option.isSome_iff_exists.mp (List.mem_filter.mp hn).2
  have hdistinct := distinct_removeUndefined c distinct
  exact resolved_removeUnresolved hdistinct hdefined

theorem snapshot_live (c : Catalog) {g : Graph} (distinct : g.uids.Nodup) :
    (g.snapshot c).1.Live c :=
  have resolved := resolved_removeUndefined (c := c) distinct
  live_breakFlowCycles (connected_restoreConnections resolved.distinct resolved.defined)

theorem snapshot_repaired {c : Catalog} {g : Graph} (extension : c.Extends)
    (texts : c.NamesByText) (distinct : g.uids.Nodup) : (g.snapshot c).1.Repaired c := by
  have resolved := resolved_removeUndefined (c := c) distinct
  have connected := connected_restoreConnections resolved.distinct resolved.defined
  exact ⟨snapshot_live c distinct, bound_breakFlowCycles connected.distinct
    (bound_restoreConnections extension texts resolved)⟩

end Graph

end ScriptGraph
