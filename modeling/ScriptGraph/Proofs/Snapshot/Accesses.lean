import ScriptGraph.Proofs.Catalog.Distinct
import ScriptGraph.Proofs.Snapshot.Nodes

/-!
Uses of variables in a snapshot. A use is left if its variable has a name as the graph stands. A
declaration whose literals end before its name gets a name in the snapshot, but after its uses have been
left out. No other use is left out whose variable has a name in the end: what replaces a literal that does
not fit is no text.
-/

set_option autoImplicit false
set_option relaxedAutoImplicit false

namespace ScriptGraph

namespace Node.Kept

variable {d : Definition} {n m : Node}

/-- The name of a declaration is the one that it has, or the one of its definition if its literals end
before. -/
theorem variableName?_eq (kept : Kept d n m) (named : m.variableName?.isSome) :
    m.variableName? = (n.values[nameInput]?.or d.initialValues[nameInput]?).bind Value.text? := by
  obtain ⟨name, given⟩ := Option.isSome_iff_exists.mp named
  rw [given]
  rw [Node.variableName?] at given
  split at given
  · rw [kept.getElem?, getElem?_completed] at given
    obtain ⟨shown, there, text⟩ := Option.bind_eq_some_iff.mp given
    obtain ⟨value, before, rfl⟩ := Option.map_eq_some_iff.mp there
    rw [before, Option.bind_some]
    split at text
    · exact text.symm
    · rw [Value.text?_defaultFor] at text
      cases text
  · cases given

end Node.Kept

namespace Graph

variable {c : Catalog} {g : Graph} {m n : Node}

/-- A use of a variable is left exactly if the graph has the declaration, with a definition and a name. -/
theorem uid_mem_snapshot_iff (distinct : g.uids.Nodup) (listed : n ∈ g.nodes)
    (access : n.access?.isSome) (defined : (c.find? n.fullName).isSome) :
    n.uid ∈ (g.snapshot c).1.uids ↔ ∃ v ∈ g.nodes, n.target? = some v.uid ∧
      (c.find? v.fullName).isSome ∧ v.variableName?.isSome := by
  have sort : n.kind ≠ .comment := by
    intro comment
    rw [Node.access?, comment] at access
    cases access
  have stays : n.uid ∈ (g.snapshot c).1.uids ↔ n ∈ (g.resolved c).nodes := by
    rw [uids_snapshot]
    constructor
    · intro there
      obtain ⟨k, left, same⟩ := List.mem_map.mp there
      obtain rfl : k = n :=
        List.inj_on_of_nodup_map distinct (mem_of_mem_resolved distinct left) listed same
      exact left
    · exact uid_mem
  have apart := distinct_removeUndefined c distinct
  rw [stays, mem_resolved distinct]
  constructor
  · rintro ⟨-, -, -, bound⟩
    obtain ⟨name, target⟩ := Option.isSome_iff_exists.mp (bound access)
    obtain ⟨uid, bound, target⟩ := Option.bind_eq_some_iff.mp target
    obtain ⟨v, found, named⟩ := Option.bind_eq_some_iff.mp target
    obtain ⟨shown, stands⟩ := List.mem_filter.mp (find?_mem found)
    exact ⟨v, (List.mem_filter.mp shown).1, by rw [bound, find?_uid found], stands,
      Option.isSome_of_eq_some named⟩
  · rintro ⟨v, there, bound, stands, named⟩
    refine ⟨listed, sort, defined, fun _ => ?_⟩
    obtain ⟨name, given⟩ := Option.isSome_iff_exists.mp named
    have shown : v.kind ≠ .comment := by
      rw [kind_of_variableName? given]
      decide
    have kept : v ∈ (g.removeComments.removeUndefined c).1.nodes :=
      List.mem_filter.mpr ⟨List.mem_filter.mpr ⟨there, decide_eq_true shown⟩, stands⟩
    rw [targetName?, bound, Option.bind_some, find?_of_mem apart kept, Option.bind_some]
    exact named

/-- Of the uses of variables that have a name in the snapshot, those are left out whose declaration ends
before its name; its definition has given it the name. -/
theorem snapshot_omits_iff (distinct : g.uids.Nodup) (listed : n ∈ g.nodes) (access : n.access?.isSome)
    (defined : (c.find? n.fullName).isSome) (live : m ∈ (g.snapshot c).1.nodes)
    (bound : n.target? = some m.uid) (named : m.variableName?.isSome) :
    n.uid ∉ (g.snapshot c).1.uids ↔ ∃ v d, g.find? m.uid = some v ∧ c.find? v.fullName = some d ∧
      v.values.length ≤ nameInput ∧
        m.variableName? = d.initialValues[nameInput]?.bind Value.text? := by
  obtain ⟨v, left, d, declared, kept⟩ := mem_snapshot distinct live
  have there : v ∈ g.nodes := mem_of_mem_resolved distinct left
  have found : g.find? m.uid = some v := by
    rw [kept.uid]
    exact find?_of_mem distinct there
  have source := kept.variableName?_eq named
  have declares : v.isVariable := by
    obtain ⟨name, given⟩ := Option.isSome_iff_exists.mp named
    rw [← kept.isVariable, Node.isVariable, kind_of_variableName? given]
    rfl
  rw [uid_mem_snapshot_iff distinct listed access defined]
  constructor
  · intro out
    have short : v.values.length ≤ nameInput := by
      refine Nat.le_of_not_lt fun long => out ⟨v, there, ?_, ?_, ?_⟩
      · rw [bound, kept.uid]
      · exact Option.isSome_of_eq_some declared
      · -- The literal is there, so the name in the snapshot is the name in the graph.
        rw [List.getElem?_eq_getElem long, Option.some_or] at source
        rw [Node.variableName?, if_pos declares, List.getElem?_eq_getElem long, ← source]
        exact named
    refine ⟨v, d, found, declared, short, ?_⟩
    rw [source, List.getElem?_eq_none short, Option.none_or]
  · rintro ⟨w, e, alsoFound, -, short, -⟩ ⟨k, listedToo, target, -, alsoNamed⟩
    obtain rfl : v = w := Option.some.inj (found.symm.trans alsoFound)
    have uid : k.uid = v.uid := by
      rw [bound, kept.uid] at target
      exact (Option.some.inj target).symm
    obtain rfl : k = v := List.inj_on_of_nodup_map distinct listedToo there uid
    rw [Node.variableName?, if_pos declares, List.getElem?_eq_none short] at alsoNamed
    cases alsoNamed

def curtailed : Graph := { Graph.empty "curtailed" with
  nodes := [
    ⟨"count", Kind.variablePrefix ++ int32Type, .origin, [.int32 5], [], []⟩,
    ⟨"total", Kind.variablePrefix ++ int32Type, .origin, [.int32 7, .text "total"], [], []⟩,
    ⟨"set", Kind.setVariableName, .origin, [.text "count", .int32 1, .bool false], [], []⟩,
    ⟨"get", Kind.getVariableName, .origin, [.text "total"], [], []⟩] }

private def renamedCount : Node :=
  ⟨"count", Kind.variablePrefix ++ int32Type, .origin,
    [.int32 5, .text defaultVariableName, .bool false, .bool false, .text SyncMode.none.name],
    [none, none, none, none, none], []⟩

theorem snapshot_omits_set :
    renamedCount ∈ (curtailed.snapshot Catalog.intrinsic).1.nodes ∧
      "set" ∉ (curtailed.snapshot Catalog.intrinsic).1.uids := by
  have runs : (Catalog.intrinsic.find? Kind.setVariableName).isSome ∧
      renamedCount ∈ (curtailed.snapshot Catalog.intrinsic).1.nodes ∧
      ∃ d, Catalog.intrinsic.find? (Kind.variablePrefix ++ int32Type) = some d ∧
        renamedCount.variableName? = d.initialValues[nameInput]?.bind Value.text? := by
    rw [Catalog.intrinsic_eq]
    decide +kernel
  obtain ⟨defined, live, d, declared, named⟩ := runs
  refine ⟨live, ?_⟩
  have omits := snapshot_omits_iff (c := Catalog.intrinsic) (g := curtailed)
    (n := ⟨"set", Kind.setVariableName, .origin, [.text "count", .int32 1, .bool false], [], []⟩)
    (m := renamedCount) (by decide) (by decide) (by decide) defined live (by decide) (by decide)
  exact omits.mpr ⟨_, d, rfl, declared, by decide, named⟩

/-- The counter is there with a name, and the node that sets it is not. -/
theorem live_use_omitted : curtailed.uids.Nodup ∧ ∃ n ∈ curtailed.nodes, n.access?.isSome ∧
    (Catalog.intrinsic.find? n.fullName).isSome ∧
    n.uid ∉ (curtailed.snapshot Catalog.intrinsic).1.uids ∧
    ∃ m ∈ (curtailed.snapshot Catalog.intrinsic).1.nodes,
      n.target? = some m.uid ∧ m.isVariable ∧ m.variableName? = some defaultVariableName := by
  rw [Catalog.intrinsic_eq]
  decide +kernel

end Graph

end ScriptGraph
