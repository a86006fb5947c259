import ScriptGraph.Proofs.Node.Flows
import ScriptGraph.Proofs.Snapshot.Compilable

/-!
What a snapshot reports. A node that is left out is named, and so is one that has lost a link, a flow or
a literal. Of a node that is not named, literals stand as they stood and all flows are kept, but three
changes pass in silence: links at inputs that its definition does not have are cut off, links to outputs
that their node does not have go to its first one, and flows move to other outputs.
-/

set_option autoImplicit false
set_option relaxedAutoImplicit false

namespace ScriptGraph

namespace Node

variable {d : Definition} {n : Node} {target : Uid} {terminals : List (Uid × Terminal)}

/-! ## Restoring without a report -/

/-- What a snapshot does to a node of which it reports nothing. -/
structure Tidied (c : Catalog) (g : Graph) (d : Definition) (n m : Node) : Prop where
  uid : m.uid = n.uid
  fullName : m.fullName = n.fullName
  position : m.position = n.position
  /-- All literals are kept; where there are fewer than inputs, those of the definition follow. -/
  values : m.values = n.values ++ d.initialValues.drop n.values.length
  /-- There is one link entry for each input; what is linked beyond is cut off. -/
  arity : m.links.length = d.inputs.length
  free : ∀ input, input < d.inputs.length → n.links[input]?.join = none → m.links[input]? = some none
  /-- A link is kept, but to the first output if its node does not have the one that it names. -/
  links : ∀ input link, input < d.inputs.length → n.links[input]? = some (some link) →
    ∃ e, g.definition? c link.node = some e ∧ 0 < e.outputs.length ∧ m.links[input]? =
      some (some ⟨link.node, if link.output < e.outputs.length then link.output else 0⟩)
  /-- All flows are kept, those of a block in order. -/
  flows : m.targets.Perm n.targets
  ordered : d.kind = .block → m.targets = n.targets
  /-- Where a node that is no block has a flow output, the flow stays at it. -/
  ports : d.kind ≠ .block → ∀ port target, port < d.flowArity → n.flows[port]? = some (some target) →
    m.flows[port]? = some (some target)

private theorem settled_eq_of_misfits {values : List Value} {first : Nat}
    (silent : misfits d first values = []) : settled d first values = values := by
  induction values generalizing first with
  | nil => rfl
  | cons value values ih =>
    rw [misfits] at silent
    rw [settled]
    split at silent
    · rename_i fits
      rw [if_pos fits, ih silent]
    · cases silent

private theorem mendFlow_eq_of_isSome {uid : Uid} (mends : (mendFlow terminals uid target).isSome) :
    mendFlow terminals uid target = some target := by
  unfold mendFlow at mends ⊢
  split
  · rfl
  · rename_i dead
    rw [if_neg dead] at mends
    cases mends

private theorem flows_mended (silent : flowProblems terminals n = []) :
    (mended terminals d n).flows = n.flows := by
  refine (List.map_congr_left fun flow listed => ?_).trans (List.map_id n.flows)
  cases flow with
  | none => rfl
  | some target =>
    obtain ⟨port, found⟩ := List.mem_iff_getElem?.mp listed
    have quiet := List.filterMap_eq_nil_iff.mp silent (some target, port)
      (List.mem_zipIdx_iff_getElem?.mpr found)
    simp only [Option.bind_some, ite_eq_right_iff, reduceCtorEq, imp_false, Bool.not_eq_true,
      Option.isNone_eq_false_iff] at quiet
    exact mendFlow_eq_of_isSome quiet

private theorem mendLink_isSome {input : Nat} {link : Link} (silent : linkProblems terminals d n = [])
    (inside : input < d.inputs.length) (found : n.links[input]? = some (some link)) :
    (mendLink terminals n.uid link).isSome := by
  have there : (fitted d.inputs.length n.links)[input]? = some (some link) := by
    rw [getElem?_fitted inside, found, Option.join_some]
  have quiet := List.filterMap_eq_nil_iff.mp silent (some link, input)
    (List.mem_zipIdx_iff_getElem?.mpr there)
  simpa only [Option.bind_some, ite_eq_right_iff, reduceCtorEq, imp_false, Bool.not_eq_true,
    Option.isNone_eq_false_iff] using quiet

private theorem mendLink_eq_of_isSome {uid : Uid} {link : Link}
    (mends : (mendLink terminals uid link).isSome) :
    ∃ terminal, terminals.lookup link.node = some terminal ∧ 0 < terminal.outputs ∧
      mendLink terminals uid link =
        some ⟨link.node, if link.output < terminal.outputs then link.output else 0⟩ := by
  unfold mendLink at mends ⊢
  cases found : terminals.lookup link.node with
  | none =>
    rw [found] at mends
    cases mends
  | some terminal =>
    rw [found] at mends
    dsimp only at mends ⊢
    by_cases same : link.node = uid
    · rw [if_pos same] at mends
      cases mends
    · rw [if_neg same] at mends ⊢
      by_cases inside : link.output < terminal.outputs
      · exact ⟨terminal, rfl, Nat.zero_lt_of_lt inside, by rw [if_pos inside, if_pos inside]⟩
      · rw [if_neg inside] at mends ⊢
        by_cases outputs : 0 < terminal.outputs
        · exact ⟨terminal, rfl, outputs, by rw [if_pos outputs, if_neg inside]⟩
        · rw [if_neg outputs] at mends
          cases mends

private theorem restored_tidied {c : Catalog} {g : Graph}
    (known : ∀ uid terminal, terminals.lookup uid = some terminal →
      ∃ e, g.definition? c uid = some e ∧ terminal.outputs = e.outputs.length)
    (silent : n.restoreProblems terminals d = []) : Tidied c g d n (n.restored terminals d) := by
  unfold restoreProblems at silent
  dsimp only at silent
  simp only [List.append_eq_nil_iff, List.map_eq_nil_iff] at silent
  obtain ⟨⟨⟨links, flows⟩, dropped⟩, misfitting⟩ := silent
  have values : (n.restored terminals d).values =
      n.values ++ d.initialValues.drop n.values.length := settled_eq_of_misfits misfitting
  have laid : (n.restored terminals d).flows = (laidOut d n.flows).1 := by
    change (laidOut d (laidOut d (mended terminals d n).flows).1).1 = _
    rw [laidOut_laidOut, flows_mended flows]
  rw [flows_mended flows] at dropped
  have arity : (mended terminals d n).links.length = d.inputs.length := by
    rw [mended, List.length_map, length_fitted]
  have linked : (n.restored terminals d).links = (mended terminals d n).links := by
    change fitted d.inputs.length (mended terminals d n).links = _
    rw [← arity, fitted_length]
  have entry : ∀ input, input < d.inputs.length → (n.restored terminals d).links[input]? =
      some (n.links[input]?.join.bind (mendLink terminals n.uid)) := fun input inside => by
    rw [linked, mended, List.getElem?_map, getElem?_fitted inside, Option.map_some]
  refine ⟨rfl, rfl, rfl, values, ?_, fun input inside free => ?_, fun input link inside found => ?_,
    ?_, fun block => ?_, fun other port target inside found => ?_⟩
  · rw [linked, arity]
  · rw [entry input inside, free, Option.bind_none]
  · obtain ⟨terminal, there, outputs, mends⟩ :=
      mendLink_eq_of_isSome (mendLink_isSome links inside found)
    obtain ⟨e, defined, count⟩ := known link.node terminal there
    rw [entry input inside, found, Option.join_some, Option.bind_some, mends]
    exact ⟨e, defined, count ▸ outputs, count ▸ rfl⟩
  · have kept := laidOut_perm d n.flows
    rw [dropped, List.append_nil] at kept
    rw [targets, laid]
    exact kept
  · rw [targets, laid, filterMap_laidOut_block block, targets]
  · rw [laid]
    exact laidOut_kept other inside found

end Node

namespace Graph

variable {c : Catalog} {g : Graph} {uid : Uid} {n m : Node}

theorem find?_clearFlows_of_apart {flows : List (Uid × Nat)} (apart : ∀ flow ∈ flows, flow.1 ≠ uid) :
    (g.clearFlows flows).find? uid = g.find? uid := by
  induction flows generalizing g with
  | nil => rfl
  | cons flow flows ih =>
    refine (ih fun other listed => apart other (List.mem_cons_of_mem flow listed)).trans ?_
    rw [find?_update (clearFlow_uid flow.2), if_neg (apart flow List.mem_cons_self).symm]

/-- What is left of a graph before its connections are restored. -/
abbrev resolved (c : Catalog) (g : Graph) : Graph :=
  (g.removeComments.removeUndefined c).1.removeUnresolved.1

theorem mem_of_mem_resolved (distinct : g.uids.Nodup) (listed : n ∈ (g.resolved c).nodes) :
    n ∈ g.nodes := by
  have apart := distinct_removeUndefined c distinct
  have defined := ((mem_removeUnresolved apart).mp listed).1
  exact (List.mem_filter.mp (List.mem_filter.mp defined).1).1

/-- A node that is no comment is left, or it is reported that it has no definition, or that it is bound
to a variable that is not there. -/
theorem mem_resolved_or_reported (distinct : g.uids.Nodup) (listed : n ∈ g.nodes)
    (sort : n.kind ≠ .comment) : n ∈ (g.resolved c).nodes ∨
      c.find? n.fullName = none ∧ ⟨n.uid, .missingDefinition n.fullName⟩ ∈ (g.snapshot c).2 ∨
      (n.access?.isSome ∧ (g.removeComments.removeUndefined c).1.targetName? n = none) ∧
        ⟨n.uid, .unresolvedVariable⟩ ∈ (g.snapshot c).2 := by
  have uncommented : n ∈ g.removeComments.nodes := List.mem_filter.mpr ⟨listed, decide_eq_true sort⟩
  cases known : c.find? n.fullName with
  | none =>
    refine .inr (.inl ⟨rfl, ?_⟩)
    have named : ⟨n.uid, .missingDefinition n.fullName⟩ ∈ (g.removeComments.removeUndefined c).2 :=
      List.mem_map.mpr ⟨n, List.mem_filter.mpr ⟨uncommented, by rw [known]; rfl⟩, rfl⟩
    exact List.mem_append_left _ (List.mem_append_left _ (List.mem_append_left _ named))
  | some d =>
    have apart := distinct_removeUndefined c distinct
    have defined : n ∈ (g.removeComments.removeUndefined c).1.nodes :=
      List.mem_filter.mpr ⟨uncommented, by rw [known]; rfl⟩
    by_cases bound : n.access?.isSome →
        ((g.removeComments.removeUndefined c).1.targetName? n).isSome
    · exact .inl ((mem_removeUnresolved apart).mpr ⟨defined, bound⟩)
    · obtain ⟨access, missing⟩ := Classical.not_imp.mp bound
      rw [Bool.not_eq_true, Option.isSome_eq_false_iff] at missing
      refine .inr (.inr ⟨⟨access, Option.isNone_iff_eq_none.mp missing⟩, ?_⟩)
      have lost : n.uid ∈ (g.removeComments.removeUndefined c).1.unresolved := by
        refine List.mem_map_of_mem (List.mem_filter.mpr ⟨defined, ?_⟩)
        rw [access, missing]
        rfl
      have named : ⟨n.uid, .unresolvedVariable⟩ ∈
          (g.removeComments.removeUndefined c).1.removeUnresolved.2 :=
        List.mem_map.mpr ⟨n.uid, lost, rfl⟩
      exact List.mem_append_left _ (List.mem_append_left _ (List.mem_append_right _ named))

theorem uids_snapshot (c : Catalog) (g : Graph) : (g.snapshot c).1.uids = (g.resolved c).uids :=
  (uids_clearFlows _ _).trans (uids_mapNodes (restoredBy_uid c _))

theorem definition?_snapshot {d : Definition} (found : (g.resolved c).find? uid = some n)
    (defined : c.find? n.fullName = some d) : (g.snapshot c).1.definition? c uid = some d := by
  obtain ⟨m, found, same⟩ := find?_breakFlowCycles (find?_restoreConnections found defined)
  have name : m.fullName = n.fullName := eq_of_unflowed same Node.fullName fun _ => rfl
  exact Option.bind_eq_some_iff.mpr ⟨m, found, name ▸ defined⟩

theorem named_of_restoreProblems {d : Definition} {problem : Problem}
    (left : n ∈ (g.resolved c).nodes) (defined : c.find? n.fullName = some d)
    (found : problem ∈ n.restoreProblems ((g.resolved c).terminals c) d) :
    ⟨n.uid, problem⟩ ∈ (g.snapshot c).2 := by
  have named : ⟨n.uid, problem⟩ ∈ ((g.resolved c).restoreConnections c).2 := by
    refine List.mem_flatMap.mpr ⟨n, left, ?_⟩
    simp only [defined]
    exact List.mem_map_of_mem found
  exact List.mem_append_left _ (List.mem_append_right _ named)

private theorem tidied_of_resolved (distinct : g.uids.Nodup) (left : n ∈ (g.resolved c).nodes)
    (found : (g.snapshot c).1.find? n.uid = some m)
    (unnamed : ∀ problem, ⟨n.uid, problem⟩ ∉ (g.snapshot c).2) :
    ∃ d, c.find? n.fullName = some d ∧ Node.Tidied c (g.snapshot c).1 d n m := by
  have resolves : (g.resolved c).Resolved c := resolved_removeUndefined distinct
  obtain ⟨d, defined⟩ := resolves.defined n left
  have restored := find?_restoreConnections (find?_of_mem resolves.distinct left) defined
  have apart : ∀ flow ∈ ((g.resolved c).restoreConnections c).1.closingFlows, flow.1 ≠ n.uid := by
    rintro ⟨uid, port⟩ listed rfl
    exact unnamed (.recursiveFlow port) (List.mem_append_right _
      (List.mem_map.mpr ⟨_, listed, rfl⟩))
  obtain rfl : n.restored ((g.resolved c).terminals c) d = m :=
    Option.some.inj (restored.symm.trans ((find?_clearFlows_of_apart apart).symm.trans found))
  refine ⟨d, defined, Node.restored_tidied (fun uid terminal listed => ?_)
    (List.eq_nil_iff_forall_not_mem.mpr fun problem there =>
      unnamed problem (named_of_restoreProblems left defined there))⟩
  obtain ⟨v, e, stands, defines, rfl⟩ := terminal_found resolves.distinct listed
  exact ⟨e, definition?_snapshot stands defines, rfl⟩

/-- Every node that is left out is named but comments, and a node that is not named has lost nothing but
links at inputs that it does not have. -/
theorem snapshot_reported (c : Catalog) (distinct : g.uids.Nodup) :
    (∀ n ∈ g.nodes, n.kind ≠ .comment → n.uid ∉ (g.snapshot c).1.uids →
      ∃ problem, ⟨n.uid, problem⟩ ∈ (g.snapshot c).2) ∧
    (∀ n ∈ g.nodes, ∀ m, (g.snapshot c).1.find? n.uid = some m →
      (∀ problem, ⟨n.uid, problem⟩ ∉ (g.snapshot c).2) →
      ∃ d, c.find? n.fullName = some d ∧ Node.Tidied c (g.snapshot c).1 d n m) := by
  constructor
  · intro n listed sort missing
    rcases mem_resolved_or_reported distinct listed sort with left | ⟨-, named⟩ | ⟨-, named⟩
    · rw [uids_snapshot] at missing
      exact absurd (uid_mem left) missing
    · exact ⟨_, named⟩
    · exact ⟨_, named⟩
  · intro n listed m found unnamed
    have stands : n.uid ∈ (g.snapshot c).1.uids := find?_uid found ▸ uid_mem (find?_mem found)
    rw [uids_snapshot] at stands
    obtain ⟨k, left, same⟩ := List.mem_map.mp stands
    obtain rfl : k = n :=
      List.inj_on_of_nodup_map distinct (mem_of_mem_resolved distinct left) listed same
    exact tidied_of_resolved distinct left found unnamed

def switches : Catalog := (Catalog.empty.extend (Catalog.controls ++ [Catalog.literalOf boolType])).1

/-- A branch whose condition comes from an output that its node does not have, and a node of which
nothing is known. -/
def mislinked : Graph := { Graph.empty "mislinked" with
  nodes := [
    ⟨"branch", Kind.branchName, .origin, [.bool false], [some ⟨"flag", 5⟩], [none, none]⟩,
    ⟨"flag", Kind.constantPrefix ++ boolType, .origin, [.bool true], [none], []⟩,
    ⟨"lost", "Unheard", .origin, [], [], []⟩] }

theorem snapshot_reported_mislinked :
    (∃ problem, ⟨"lost", problem⟩ ∈ (mislinked.snapshot switches).2) ∧
    ∃ n ∈ mislinked.nodes, n.uid = "branch" ∧ ∃ m d, switches.find? n.fullName = some d ∧
      Node.Tidied switches (mislinked.snapshot switches).1 d n m := by
  obtain ⟨missing, unnamed⟩ := snapshot_reported switches (g := mislinked) (by decide)
  refine ⟨missing ⟨"lost", "Unheard", .origin, [], [], []⟩ (by decide) (by decide) (by decide +kernel),
    ⟨"branch", Kind.branchName, .origin, [.bool false], [some ⟨"flag", 5⟩], [none, none]⟩, by decide,
    rfl, ?_⟩
  have stands : "branch" ∈ (mislinked.snapshot switches).1.uids := by decide +kernel
  have silent : ∀ report ∈ (mislinked.snapshot switches).2, report.node ≠ "branch" := by
    decide +kernel
  obtain ⟨m, found⟩ := find?_isSome_of_mem stands
  exact ⟨m, unnamed _ (by decide) m found fun _ listed => silent _ listed rfl⟩

/-- The branch takes its condition from another output, and nothing names it. -/
theorem redirected_in_silence : ∃ n ∈ mislinked.nodes,
    ∃ m ∈ (mislinked.snapshot switches).1.nodes, m.uid = n.uid ∧
      n.links = [some ⟨"flag", 5⟩] ∧ m.links = [some ⟨"flag", 0⟩] ∧
      ∀ report ∈ (mislinked.snapshot switches).2, report.node ≠ n.uid := by
  decide +kernel

end Graph

end ScriptGraph
