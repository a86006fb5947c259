import ScriptGraph.Proofs.Graph.Valid

/-!
What restoring leaves alone. In a valid graph every connection is live and every literal fits, so there
is nothing to mend and nothing to report: no more happens than that blocks move their targets together.
-/

set_option autoImplicit false
set_option relaxedAutoImplicit false

namespace ScriptGraph

namespace Node

variable {d : Definition} {n : Node} {values : List Value} {terminals : List (Uid × Terminal)}

private theorem settled_eq_from (first : Nat) (fit : ∀ (index : Nat) (value : Value),
    values[index]? = some value → value.fits (d.inputType (first + index))) :
    settled d first values = values ∧ misfits d first values = [] := by
  induction values generalizing first with
  | nil => exact ⟨rfl, rfl⟩
  | cons value values ih =>
    have here : value.fits (d.inputType first) := fit 0 value rfl
    obtain ⟨settles, fits⟩ := ih (first + 1) fun index other found => by
      rw [Nat.add_right_comm, Nat.add_assoc]
      exact fit (index + 1) other (by rwa [List.getElem?_cons_succ])
    rw [settled, misfits, if_pos here, if_pos here, settles]
    exact ⟨rfl, fits⟩

theorem Fit.settled_eq (fit : Fit d values) : settled d 0 values = values :=
  (settled_eq_from 0 fun index value found => by
    rw [Nat.zero_add]
    exact fit index value found).1

theorem Fit.misfits_eq (fit : Fit d values) : misfits d 0 values = [] :=
  (settled_eq_from 0 fun index value found => by
    rw [Nat.zero_add]
    exact fit index value found).2

theorem Sized.laidOut_snd (sized : n.Sized d) : (laidOut d n.flows).2 = [] := by
  rw [laidOut]
  split
  · rfl
  · rename_i other
    dsimp only
    rw [List.drop_of_length_le (Nat.le_of_eq (sized.flows other)), List.filterMap_nil, fillAbsent]

/-- Every connection of a node leads to an output or a flow input that another node has. -/
structure Live (terminals : List (Uid × Terminal)) (n : Node) : Prop where
  links : ∀ link, some link ∈ n.links → link.node ≠ n.uid ∧
    ∃ terminal, terminals.lookup link.node = some terminal ∧ link.output < terminal.outputs
  flows : ∀ target, some target ∈ n.flows → target ≠ n.uid ∧
    ∃ terminal, terminals.lookup target = some terminal ∧ terminal.flowInput

theorem Live.mendLink_eq (live : n.Live terminals) {link : Link} (listed : some link ∈ n.links) :
    mendLink terminals n.uid link = some link := by
  obtain ⟨other, terminal, found, inside⟩ := live.links link listed
  simp only [mendLink, found, if_neg other, if_pos inside]

theorem Live.mendFlow_eq (live : n.Live terminals) {target : Uid}
    (listed : some target ∈ n.flows) : mendFlow terminals n.uid target = some target := by
  obtain ⟨other, terminal, found, input⟩ := live.flows target listed
  rw [mendFlow, found, if_pos ⟨other, input⟩]

private theorem map_bind_eq {α : Type} {mend : α → Option α} {entries : List (Option α)}
    (mends : ∀ entry, some entry ∈ entries → mend entry = some entry) :
    (entries.map fun entry => entry.bind mend) = entries := by
  refine (List.map_congr_left fun entry listed => ?_).trans (List.map_id entries)
  cases entry with
  | none => rfl
  | some entry => exact mends entry listed

theorem Live.mended_eq (live : n.Live terminals) (sized : n.Sized d) :
    mended terminals d n = n := by
  rw [mended, ← sized.links, fitted_length, map_bind_eq fun _ => live.mendLink_eq,
    map_bind_eq fun _ => live.mendFlow_eq]

/-- A node with live connections only and with literals that fit is left as it is, but its flows are
laid out. -/
theorem Live.restored_eq (live : n.Live terminals) (sized : n.Sized d)
    (fit : Fit d n.values) : n.restored terminals d = n.layFlows d := by
  have fit : Fit d (n.layFlows d).values := fit
  rw [restored, live.mended_eq sized, sized.layFlows_conforms.conform_eq, settle, fit.settled_eq]

private theorem filterMap_problems_eq {α : Type} {entries : List (Option α)}
    (problem? : Nat → α → Option Problem) (none : ∀ entry, some entry ∈ entries → ∀ index,
      problem? index entry = none) :
    (entries.zipIdx.filterMap fun entry => entry.1.bind (problem? entry.2)) = [] := by
  rw [List.filterMap_eq_nil_iff]
  rintro ⟨entry, index⟩ listed
  cases entry with
  | none => rfl
  | some entry => exact none entry (List.fst_mem_of_mem_zipIdx listed) index

theorem Live.restoreProblems_eq (live : n.Live terminals) (sized : n.Sized d)
    (fit : Fit d n.values) : n.restoreProblems terminals d = [] := by
  have fit : Fit d (n.layFlows d).values := fit
  have links : linkProblems terminals d n = [] := by
    rw [linkProblems, ← sized.links, fitted_length]
    refine filterMap_problems_eq (fun index link => if (mendLink terminals n.uid link).isNone then
      some (.danglingLink index link) else none) fun link listed index => ?_
    rw [live.mendLink_eq listed, if_neg (by simp)]
  have flows : flowProblems terminals n = [] := by
    refine filterMap_problems_eq (fun index target => if (mendFlow terminals n.uid target).isNone then
      some (.danglingFlow index target) else none) fun target listed index => ?_
    rw [live.mendFlow_eq listed, if_neg (by simp)]
  unfold restoreProblems
  dsimp only
  rw [links, flows, live.mended_eq sized, sized.laidOut_snd, sized.layFlows_conforms.conform_eq,
    fit.misfits_eq]
  rfl

end Node

namespace Graph

variable {c : Catalog} {g : Graph} {uid : Uid} {d : Definition}

theorem lookup_terminals (distinct : g.uids.Nodup) (defined : g.definition? c uid = some d) :
    (g.terminals c).lookup uid = some ⟨d.outputs.length, d.hasFlowInput⟩ := by
  obtain ⟨n, listed, rfl, found⟩ := mem_of_definition? defined
  refine lookup_eq_some_of_mem ?_ (List.mem_reverse.mpr (List.mem_filterMap.mpr ⟨n, listed, ?_⟩))
  · rw [terminals, List.map_reverse, List.nodup_reverse]
    refine distinct.sublist ?_
    rw [uids]
    generalize g.nodes = nodes
    induction nodes with
    | nil => exact .slnil
    | cons m nodes ih =>
      rw [List.filterMap_cons]
      cases c.find? m.fullName with
      | none => exact ih.cons m.uid
      | some e => exact ih.cons_cons m.uid
  · rw [found]
    rfl

def compacted (g : Graph) : Graph := g.mapNodes Node.compacted

/-- Nothing is left to mend: the graph is valid, every node has the size that its definition gives it,
there are no comments, and no node leads to itself. -/
structure Intact (c : Catalog) (g : Graph) : Prop extends g.Valid c where
  distinct : g.uids.Nodup
  sized : ∀ n ∈ g.nodes, ∃ d, c.find? n.fullName = some d ∧ n.Sized d
  uncommented : ∀ n ∈ g.nodes, n.kind ≠ .comment
  onward : ∀ u v, g.Leads u v → v ≠ u

namespace Intact

theorem connected (intact : g.Intact c) {n : Node} (listed : n ∈ g.nodes) :
    n.Live (g.terminals c) := by
  refine ⟨fun link there => ?_, fun target there => ?_⟩
  · have linked : g.Linked n.uid link := ⟨n, listed, rfl, there⟩
    obtain ⟨d, defined, inside⟩ := intact.outputs _ _ linked
    exact ⟨intact.apart _ _ linked, _, lookup_terminals intact.distinct defined, inside⟩
  · have leads : g.Leads n.uid target := ⟨n, listed, rfl, there⟩
    obtain ⟨d, defined, input⟩ := intact.inputs _ _ leads
    exact ⟨intact.onward _ _ leads, _, lookup_terminals intact.distinct defined, input⟩

theorem removeComments_eq (intact : g.Intact c) : g.removeComments = g := by
  have kept : (g.nodes.filter fun n => n.kind ≠ .comment) = g.nodes :=
    List.filter_eq_self.mpr fun n listed => decide_eq_true (intact.uncommented n listed)
  rw [removeComments, kept]

theorem removeUndefined_eq (intact : g.Intact c) : g.removeUndefined c = (g, []) := by
  have known : ∀ n ∈ g.nodes, (c.find? n.fullName).isSome := by
    intro n listed
    obtain ⟨d, found, -⟩ := intact.sized n listed
    rw [found]
    rfl
  have kept : (g.nodes.filter fun n => (c.find? n.fullName).isSome) = g.nodes :=
    List.filter_eq_self.mpr known
  have missing : (g.nodes.filter fun n => (c.find? n.fullName).isNone) = [] := by
    refine List.filter_eq_nil_iff.mpr fun n listed absent => ?_
    have found := known n listed
    rw [Option.isNone_iff_eq_none.mp absent] at found
    cases found
  rw [removeUndefined, kept, missing]
  rfl

theorem restoreConnections_eq (intact : g.Intact c) :
    g.restoreConnections c = (g.compacted, []) := by
  have restores : ∀ n ∈ g.nodes, ∃ d, c.find? n.fullName = some d ∧
      n.restored (g.terminals c) d = n.compacted ∧ n.restoreProblems (g.terminals c) d = [] := by
    intro n listed
    obtain ⟨d, found, sized⟩ := intact.sized n listed
    have fit := intact.literals n listed d found
    have live := intact.connected listed
    refine ⟨d, found, ?_, live.restoreProblems_eq sized fit⟩
    rw [live.restored_eq sized fit, sized.layFlows_eq (Catalog.find?_kind found)]
  have same : g.mapNodes (restoredBy c (g.terminals c)) = g.compacted := by
    rw [compacted, mapNodes, mapNodes, List.map_congr_left]
    intro n listed
    obtain ⟨d, found, kept, -⟩ := restores n listed
    rw [restoredBy_eq found, kept]
  refine Prod.ext same (List.flatMap_eq_nil_iff.mpr fun n listed => ?_)
  obtain ⟨d, found, -, silent⟩ := restores n listed
  simp only [found, silent, List.map_nil]

end Intact

/-- Nothing is left to restore either: the graph is well-formed besides. -/
structure Mended (c : Catalog) (g : Graph) : Prop extends g.Valid c where
  formed : g.WellFormed c
  uncommented : ∀ n ∈ g.nodes, n.kind ≠ .comment
  onward : ∀ u v, g.Leads u v → v ≠ u

namespace Mended

theorem intact (mended : g.Mended c) : g.Intact c := by
  refine { mended.toValid with
    distinct := mended.formed.distinct
    sized := fun n listed => ?_
    uncommented := mended.uncommented
    onward := mended.onward }
  obtain ⟨d, found, conforms⟩ := mended.formed.conforms n listed
  exact ⟨d, found, conforms.sized⟩

theorem removeUndefined_eq (mended : g.Mended c) : g.removeUndefined c = (g, []) :=
  mended.intact.removeUndefined_eq

theorem restoreConnections_eq (mended : g.Mended c) : g.restoreConnections c = (g, []) := by
  have same : g.compacted = g := by
    rw [compacted, mapNodes, List.map_congr_left (g := id), List.map_id]
    intro n listed
    obtain ⟨d, found, conforms⟩ := mended.formed.conforms n listed
    rw [← conforms.sized.layFlows_eq (Catalog.find?_kind found), conforms.layFlows_eq, id]
  rw [mended.intact.restoreConnections_eq, same]

end Mended

end Graph

end ScriptGraph
