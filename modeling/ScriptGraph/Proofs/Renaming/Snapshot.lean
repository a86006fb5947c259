import ScriptGraph.Proofs.Renaming.Graph
import ScriptGraph.Proofs.Snapshot.Repaired

/-!
Snapshots of renamed graphs. Every repair looks at uids only to compare them, so it does to the
renamed graph what it does to the graph, and reports the same problems at the renamed nodes.
-/

set_option autoImplicit false
set_option relaxedAutoImplicit false

namespace ScriptGraph

variable {ρ : Uid → Uid}

def Problem.rename (ρ : Uid → Uid) : Problem → Problem
  | .danglingLink input link => .danglingLink input (link.rename ρ)
  | .danglingFlow port target => .danglingFlow port (ρ target)
  | .droppedFlow target => .droppedFlow (ρ target)
  | problem => problem

def Diagnostic.rename (ρ : Uid → Uid) (d : Diagnostic) : Diagnostic :=
  ⟨ρ d.node, d.problem.rename ρ⟩

theorem Diagnostic.rename_kind (d : Diagnostic) : (d.rename ρ).kind = d.kind := by
  obtain ⟨uid, problem⟩ := d
  cases problem <;> rfl

/-! ## Ports -/

section Ports

variable {α β : Type} (f : α → β)

theorem fitted_map (length : Nat) (entries : List (Option α)) :
    fitted length (entries.map (Option.map f)) = (fitted length entries).map (Option.map f) := by
  rw [fitted, fitted, List.map_append, List.map_take, List.length_map, List.map_replicate]
  rfl

theorem presentCount_map (entries : List (Option α)) :
    presentCount (entries.map (Option.map f)) = presentCount entries := by
  rw [presentCount, presentCount, List.countP_map]
  congr 1
  funext entry
  exact Option.isSome_map

theorem filterMap_id_map (entries : List (Option α)) :
    (entries.map (Option.map f)).filterMap id = (entries.filterMap id).map f := by
  rw [List.filterMap_map, List.map_filterMap]
  rfl

theorem fillFirst?_map (entry : α) (entries : List (Option α)) :
    fillFirst? (f entry) (entries.map (Option.map f)) =
      (fillFirst? entry entries).map (List.map (Option.map f)) := by
  induction entries with
  | nil => rfl
  | cons first entries ih =>
    cases first with
    | none => rfl
    | some kept =>
      rw [List.map_cons, Option.map_some, fillFirst?, fillFirst?, ih, Option.map_map, Option.map_map]
      rfl

theorem fillAbsent_map (entries : List (Option α)) (more : List α) :
    fillAbsent (entries.map (Option.map f)) (more.map f) =
      ((fillAbsent entries more).1.map (Option.map f), (fillAbsent entries more).2.map f) := by
  induction more generalizing entries with
  | nil => rfl
  | cons entry more ih =>
    rw [List.map_cons, fillAbsent, fillAbsent, fillFirst?_map]
    cases fillFirst? entry entries with
    | some filled => exact ih filled
    | none =>
      simp only [Option.map_none]
      rw [ih entries, List.map_cons]

end Ports

namespace Node

variable {d : Definition} {n : Node} {terminals : List (Uid × Terminal)}

theorem flowPorts_map (flows : List (Option Uid)) :
    flowPorts d (flows.map (Option.map ρ)) = flowPorts d flows := by
  rw [flowPorts, flowPorts, presentCount_map]

theorem laidOut_map (flows : List (Option Uid)) :
    laidOut d (flows.map (Option.map ρ)) =
      ((laidOut d flows).1.map (Option.map ρ), (laidOut d flows).2.map ρ) := by
  unfold laidOut
  split
  · have hpresent : (flows.map (Option.map ρ)).filter Option.isSome =
        (flows.filter Option.isSome).map (Option.map ρ) := by
      rw [List.filter_map]
      congr 2
      funext flow
      exact Option.isSome_map
    rw [flowPorts_map, hpresent, fitted_map]
    rfl
  · dsimp only
    rw [← List.map_take, ← List.map_drop, filterMap_id_map, fillAbsent_map, fitted_map]

theorem mendLink_rename (injective : ρ.Injective) (uid : Uid) (link : Link) :
    mendLink (terminals.map (Prod.map ρ id)) (ρ uid) (link.rename ρ) =
      (mendLink terminals uid link).map (Link.rename ρ) := by
  have hlookup : (terminals.map (Prod.map ρ id)).lookup (link.rename ρ).node =
      terminals.lookup link.node := by
    rw [Link.rename, lookup_map_prodMap injective, Option.map_id_fun, id]
  unfold mendLink
  rw [hlookup]
  cases terminals.lookup link.node with
  | none => rfl
  | some terminal =>
    have hself : (link.rename ρ).node = ρ uid ↔ link.node = uid := injective.eq_iff
    by_cases self : link.node = uid
    · simp only [if_pos (hself.mpr self), if_pos self, Option.map_none]
    · have houtput : (link.rename ρ).output = link.output := rfl
      simp only [if_neg (mt hself.mp self), if_neg self, houtput]
      split
      · rfl
      · split <;> rfl

theorem mendFlow_rename (injective : ρ.Injective) (uid target : Uid) :
    mendFlow (terminals.map (Prod.map ρ id)) (ρ uid) (ρ target) =
      (mendFlow terminals uid target).map ρ := by
  unfold mendFlow
  rw [lookup_map_prodMap injective, Option.map_id_fun, id]
  simp only [injective.ne_iff]
  split <;> rfl

theorem mended_rename (injective : ρ.Injective) :
    (n.rename ρ).mended (terminals.map (Prod.map ρ id)) d = (n.mended terminals d).rename ρ := by
  have hlink : ∀ link : Option Link,
      (link.map (Link.rename ρ)).bind (mendLink (terminals.map (Prod.map ρ id)) (ρ n.uid)) =
        (link.bind (mendLink terminals n.uid)).map (Link.rename ρ) := by
    intro link
    cases link with
    | none => rfl
    | some link => exact mendLink_rename injective n.uid link
  have hflow : ∀ flow : Option Uid,
      (flow.map ρ).bind (mendFlow (terminals.map (Prod.map ρ id)) (ρ n.uid)) =
        (flow.bind (mendFlow terminals n.uid)).map ρ := by
    intro flow
    cases flow with
    | none => rfl
    | some flow => exact mendFlow_rename injective n.uid flow
  simp only [mended, rename, fitted_map, List.map_map, Function.comp_def, hlink, hflow]
  rfl

theorem layFlows_rename : (n.rename ρ).layFlows d = (n.layFlows d).rename ρ := by
  simp only [layFlows, rename, laidOut_map]
  rfl

def NamesTarget (n : Node) : Prop :=
  n.access?.isSome → ∃ uid rest, n.values = .text uid :: rest

theorem conform_rename (names : n.NamesTarget) :
    (n.rename ρ).conform d = (n.conform d).rename ρ := by
  have hvalues : (n.rename ρ).values ++ d.initialValues.drop (n.rename ρ).values.length =
      ((n.conform d).rename ρ).values := by
    by_cases bound : n.access?.isSome
    · obtain ⟨uid, rest, hvalues⟩ := names bound
      have hconform : (n.conform d).access?.isSome := bound
      simp only [rename, bound, hconform, if_true]
      simp only [conform, hvalues, renamedTarget, List.cons_append, List.length_cons]
    · have unbound : n.access? = none := Option.not_isSome_iff_eq_none.mp bound
      have hconform : (n.conform d).access? = none := unbound
      rw [rename_values unbound, rename_values hconform]
      rfl
  rw [conform, hvalues]
  simp only [rename_flows, laidOut_map, rename_links, fitted_map]
  rfl

private theorem settled_renamedTarget (typed : d.inputType 0 = some textType) (uid : Uid)
    (rest : List Value) :
    settled d 0 (.text (ρ uid) :: rest) = renamedTarget ρ (settled d 0 (.text uid :: rest)) := by
  rw [settled, settled, typed, if_pos (text_fits _), if_pos (text_fits _), renamedTarget]

theorem settle_rename (names : n.NamesTarget)
    (typed : n.access?.isSome → d.inputType 0 = some textType) :
    (n.rename ρ).settle d = (n.settle d).rename ρ := by
  have hvalues : settled d 0 (n.rename ρ).values = ((n.settle d).rename ρ).values := by
    by_cases bound : n.access?.isSome
    · obtain ⟨uid, rest, hvalues⟩ := names bound
      have hsettle : (n.settle d).access?.isSome := bound
      simp only [rename, bound, hsettle, if_true]
      rw [hvalues, renamedTarget, settled_renamedTarget (typed bound), settle, hvalues]
    · have unbound : n.access? = none := Option.not_isSome_iff_eq_none.mp bound
      have hsettle : (n.settle d).access? = none := unbound
      rw [rename_values unbound, rename_values hsettle]
      rfl
  rw [settle, hvalues]
  rfl

theorem misfits_rename (names : n.NamesTarget)
    (typed : n.access?.isSome → d.inputType 0 = some textType) :
    misfits d 0 (n.rename ρ).values = misfits d 0 n.values := by
  by_cases bound : n.access?.isSome
  · obtain ⟨uid, rest, hvalues⟩ := names bound
    simp only [rename, bound, if_true, hvalues, renamedTarget]
    rw [misfits, misfits, typed bound, if_pos (text_fits _), if_pos (text_fits _)]
  · rw [rename_values (Option.not_isSome_iff_eq_none.mp bound)]

theorem namesTarget_of_target? {uid : Uid} (found : n.target? = some uid) : n.NamesTarget := by
  intro bound
  rw [target?, if_pos bound] at found
  obtain ⟨hfirst, -⟩ := Option.filter_eq_some_iff.mp found
  obtain ⟨value, hvalue, htext⟩ := Option.bind_eq_some_iff.mp hfirst
  cases hvalues : n.values with
  | nil =>
    rw [hvalues] at hvalue
    cases hvalue
  | cons first rest =>
    rw [hvalues, List.getElem?_cons_zero] at hvalue
    obtain rfl := Option.some.inj hvalue
    exact ⟨uid, rest, by rw [text?_eq_some htext]⟩

private theorem NamesTarget.conform (names : n.NamesTarget) : (n.conform d).NamesTarget := by
  intro bound
  obtain ⟨uid, rest, hvalues⟩ := names bound
  refine ⟨uid, rest ++ d.initialValues.drop n.values.length, ?_⟩
  change n.values ++ d.initialValues.drop n.values.length = _
  rw [← List.cons_append, ← hvalues]

theorem restored_rename (injective : ρ.Injective) (names : n.NamesTarget)
    (typed : n.access?.isSome → d.inputType 0 = some textType) :
    (n.rename ρ).restored (terminals.map (Prod.map ρ id)) d =
      (n.restored terminals d).rename ρ := by
  have hnames : ((n.mended terminals d).layFlows d).NamesTarget := names
  rw [restored, mended_rename injective, layFlows_rename, conform_rename hnames,
    settle_rename hnames.conform typed, restored]

/-! ## The problems of a node -/

private theorem linkProblems_rename (injective : ρ.Injective) :
    linkProblems (terminals.map (Prod.map ρ id)) d (n.rename ρ) =
      (linkProblems terminals d n).map (Problem.rename ρ) := by
  rw [linkProblems, linkProblems, rename_links, fitted_map, List.zipIdx_map, List.filterMap_map,
    List.map_filterMap]
  congr 1
  funext entry
  obtain ⟨link, index⟩ := entry
  cases link with
  | none => rfl
  | some link =>
    simp only [Function.comp_apply, Prod.map_apply, Option.map_some, Option.bind_some, rename_uid,
      mendLink_rename injective, Option.isNone_map]
    split <;> rfl

private theorem flowProblems_rename (injective : ρ.Injective) :
    flowProblems (terminals.map (Prod.map ρ id)) (n.rename ρ) =
      (flowProblems terminals n).map (Problem.rename ρ) := by
  rw [flowProblems, flowProblems, rename_flows, List.zipIdx_map, List.filterMap_map,
    List.map_filterMap]
  congr 1
  funext entry
  obtain ⟨flow, port⟩ := entry
  cases flow with
  | none => rfl
  | some target =>
    simp only [Function.comp_apply, Prod.map_apply, Option.map_some, Option.bind_some, rename_uid,
      mendFlow_rename injective, Option.isNone_map]
    split <;> rfl

theorem restoreProblems_rename (injective : ρ.Injective) (names : n.NamesTarget)
    (typed : n.access?.isSome → d.inputType 0 = some textType) :
    (n.rename ρ).restoreProblems (terminals.map (Prod.map ρ id)) d =
      (n.restoreProblems terminals d).map (Problem.rename ρ) := by
  have hnames : ((n.mended terminals d).layFlows d).NamesTarget := names
  simp only [restoreProblems, mended_rename injective, layFlows_rename, conform_rename hnames,
    misfits_rename hnames.conform typed, linkProblems_rename injective,
    flowProblems_rename injective, rename_flows, laidOut_map, List.map_append, List.map_map]
  rfl

end Node

namespace Search

def rename (ρ : Uid → Uid) (s : Search) : Search :=
  ⟨s.marks.map (Prod.map ρ id), s.closing.map (Prod.map ρ id)⟩

theorem rename_mark? (injective : ρ.Injective) (s : Search) (uid : Uid) :
    (s.rename ρ).mark? (ρ uid) = s.mark? uid := by
  rw [mark?, rename, lookup_map_prodMap injective, Option.map_id_fun, id, mark?]

theorem rename_set (s : Search) (uid : Uid) (mark : Mark) :
    (s.rename ρ).set (ρ uid) mark = (s.set uid mark).rename ρ := rfl

theorem rename_inspect (injective : ρ.Injective) {visit visit' : Uid → Search → Search}
    (same : ∀ uid s, visit' (ρ uid) (s.rename ρ) = (visit uid s).rename ρ) (uid : Uid) (s : Search)
    (flow : Option Uid × Nat) :
    inspect visit' (ρ uid) (s.rename ρ) (flow.map (Option.map ρ) id) =
      (inspect visit uid s flow).rename ρ := by
  obtain ⟨target, port⟩ := flow
  cases target with
  | none => rfl
  | some target =>
    simp only [inspect, Prod.map_apply, Option.map_some, rename_mark? injective]
    cases s.mark? target with
    | none => exact same target s
    | some mark =>
      cases mark with
      | active => simp only [rename, List.map_append, List.map_cons, List.map_nil, Prod.map_apply]
      | done => rfl

variable {g : Graph}

theorem rename_visit (injective : ρ.Injective) (depth : Nat) (uid : Uid) (s : Search) :
    visit (g.rename ρ) depth (ρ uid) (s.rename ρ) = (visit g depth uid s).rename ρ := by
  induction depth generalizing uid s with
  | zero => rfl
  | succ depth ih =>
    have hflows : (((g.rename ρ).find? (ρ uid)).map Node.flows).getD [] =
        (((g.find? uid).map Node.flows).getD []).map (Option.map ρ) := by
      rw [Graph.rename_find? injective]
      cases g.find? uid <;> rfl
    have hfold : ∀ (flows : List (Option Uid × Nat)) (s : Search),
        (flows.map (Prod.map (Option.map ρ) id)).foldl
            (inspect (visit (g.rename ρ) depth) (ρ uid)) (s.rename ρ) =
          (flows.foldl (inspect (visit g depth) uid) s).rename ρ := by
      intro flows
      induction flows with
      | nil => exact fun s => rfl
      | cons flow flows ihflows =>
        intro s
        rw [List.map_cons, List.foldl_cons, List.foldl_cons, rename_inspect injective ih, ihflows]
    rw [visit, visit, hflows, List.zipIdx_map, rename_set, hfold, rename_set]

theorem rename_run (injective : ρ.Injective) : run (g.rename ρ) = (run g).rename ρ := by
  have hfold : ∀ (uids : List Uid) (s : Search),
      (uids.map ρ).foldl (fun s uid =>
          if (s.mark? uid).isSome then s
          else visit (g.rename ρ) (g.nodes.length + 1) uid s) (s.rename ρ) =
        (uids.foldl (fun s uid =>
          if (s.mark? uid).isSome then s else visit g (g.nodes.length + 1) uid s) s).rename ρ := by
    intro uids
    induction uids with
    | nil => exact fun s => rfl
    | cons uid uids ih =>
      intro s
      rw [List.map_cons, List.foldl_cons, List.foldl_cons, ← ih]
      congr 1
      rw [rename_mark? injective, rename_visit injective]
      split <;> rfl
  rw [run, Graph.rename_uids, Graph.rename_nodes, List.length_map]
  exact hfold g.uids start

end Search

namespace Graph

variable {g : Graph} {c : Catalog}

theorem rename_removeComments : (g.rename ρ).removeComments = g.removeComments.rename ρ := by
  have hnodes : (g.rename ρ).nodes.filter (fun n => decide (n.kind ≠ .comment)) =
      (g.nodes.filter fun n => decide (n.kind ≠ .comment)).map (Node.rename ρ) :=
    rename_filter fun _ _ => rfl
  rw [removeComments, hnodes]
  rfl

theorem rename_removeUndefined : (g.rename ρ).removeUndefined c =
    ((g.removeUndefined c).1.rename ρ, (g.removeUndefined c).2.map (Diagnostic.rename ρ)) := by
  have hkept : (g.rename ρ).nodes.filter (fun n => (c.find? n.fullName).isSome) =
      (g.nodes.filter fun n => (c.find? n.fullName).isSome).map (Node.rename ρ) :=
    rename_filter fun _ _ => rfl
  have hgone : (g.rename ρ).nodes.filter (fun n => (c.find? n.fullName).isNone) =
      (g.nodes.filter fun n => (c.find? n.fullName).isNone).map (Node.rename ρ) :=
    rename_filter fun _ _ => rfl
  rw [removeUndefined, hkept, hgone, removeUndefined, List.map_map, List.map_map]
  rfl

theorem rename_unresolved (injective : ρ.Injective) (empty : ρ "" = "") :
    (g.rename ρ).unresolved = g.unresolved.map ρ := by
  have hfilter : (g.rename ρ).nodes.filter (fun n => n.access?.isSome &&
        ((g.rename ρ).targetName? n).isNone) =
      (g.nodes.filter fun n => n.access?.isSome && (g.targetName? n).isNone).map
        (Node.rename ρ) := by
    refine rename_filter fun n _ => ?_
    rw [rename_targetName? injective empty, Node.rename_access?]
  rw [unresolved, hfilter, unresolved, List.map_map, List.map_map]
  rfl

theorem rename_removeUnresolved (injective : ρ.Injective) (empty : ρ "" = "") :
    (g.rename ρ).removeUnresolved =
      (g.removeUnresolved.1.rename ρ, g.removeUnresolved.2.map (Diagnostic.rename ρ)) := by
  have hfold : ∀ (uids : List Uid) (g : Graph),
      (uids.map ρ).foldl remove (g.rename ρ) = (uids.foldl remove g).rename ρ := by
    intro uids
    induction uids with
    | nil => exact fun g => rfl
    | cons uid uids ih =>
      intro g
      rw [List.map_cons, List.foldl_cons, List.foldl_cons, rename_remove injective, ih]
  rw [removeUnresolved, rename_unresolved injective empty, hfold, removeUnresolved, List.map_map,
    List.map_map]
  rfl

theorem rename_terminals : (g.rename ρ).terminals c = (g.terminals c).map (Prod.map ρ id) := by
  rw [terminals, terminals, rename_nodes, List.filterMap_map, List.map_reverse,
    List.map_filterMap]
  congr 2
  funext n
  rw [Function.comp_apply, Node.rename_fullName, Option.map_map]
  rfl

theorem rename_restoreConnections (extension : c.Extends) (injective : ρ.Injective)
    (resolved : g.Resolved c) :
    (g.rename ρ).restoreConnections c =
      ((g.restoreConnections c).1.rename ρ,
        (g.restoreConnections c).2.map (Diagnostic.rename ρ)) := by
  have hnames : ∀ n ∈ g.nodes, n.NamesTarget := by
    intro n hn bound
    obtain ⟨name, hname⟩ := resolved.bound n hn bound
    obtain ⟨uid, htarget, -⟩ := Option.bind_eq_some_iff.mp hname
    exact Node.namesTarget_of_target? htarget bound
  have htyped : ∀ n ∈ g.nodes, ∀ d, c.find? n.fullName = some d → n.access?.isSome →
      d.inputType 0 = some textType := by
    intro n _ d found bound
    refine extension.inputType_of_access found ?_
    rw [Catalog.find?_kind found]
    exact bound
  rw [restoreConnections, restoreConnections, rename_terminals]
  refine Prod.ext ?_ ?_
  · simp only [rename, mapNodes, List.map_map]
    congr 1
    refine List.map_congr_left fun n hn => ?_
    simp only [Function.comp_apply, Node.rename_fullName]
    cases found : c.find? n.fullName with
    | none => rfl
    | some d => exact Node.restored_rename injective (hnames n hn) (htyped n hn d found)
  · simp only [rename_nodes, List.flatMap_map, List.map_flatMap]
    refine List.flatMap_congr fun n hn => ?_
    rw [Node.rename_fullName]
    cases found : c.find? n.fullName with
    | none => rfl
    | some d =>
      simp only
      rw [Node.restoreProblems_rename injective (hnames n hn) (htyped n hn d found), List.map_map,
        List.map_map]
      rfl

theorem rename_closingFlows (injective : ρ.Injective) :
    (g.rename ρ).closingFlows = g.closingFlows.map (Prod.map ρ id) := by
  rw [closingFlows, Search.rename_run injective]
  rfl

theorem rename_clearFlows (injective : ρ.Injective) (flows : List (Uid × Nat)) (g : Graph) :
    (g.rename ρ).clearFlows (flows.map (Prod.map ρ id)) = (g.clearFlows flows).rename ρ := by
  induction flows generalizing g with
  | nil => rfl
  | cons flow flows ih =>
    have hclear : ∀ n : Node, { n.rename ρ with flows := (n.rename ρ).flows.set flow.2 none } =
        ({ n with flows := n.flows.set flow.2 none } : Node).rename ρ := by
      intro n
      simp only [Node.rename, List.map_set, Option.map_none]
      rfl
    have hupdate : (g.rename ρ).update (ρ flow.1)
          (fun n => { n with flows := n.flows.set flow.2 none }) =
        (g.update flow.1 fun n => { n with flows := n.flows.set flow.2 none }).rename ρ :=
      rename_update injective hclear flow.1
    simp only [clearFlows, List.map_cons, List.foldl_cons] at ih ⊢
    rw [Prod.map_fst, Prod.map_snd, id, hupdate, ih]

theorem rename_breakFlowCycles (injective : ρ.Injective) :
    (g.rename ρ).breakFlowCycles =
      (g.breakFlowCycles.1.rename ρ, g.breakFlowCycles.2.map (Diagnostic.rename ρ)) := by
  rw [breakFlowCycles, rename_closingFlows injective, rename_clearFlows injective, breakFlowCycles,
    List.map_map, List.map_map]
  rfl

theorem rename_snapshot (extension : c.Extends) (distinct : g.uids.Nodup) (injective : ρ.Injective)
    (empty : ρ "" = "") : (g.rename ρ).snapshot c =
      ((g.snapshot c).1.rename ρ, (g.snapshot c).2.map (Diagnostic.rename ρ)) := by
  have hresolved := resolved_removeUndefined (c := c) distinct
  simp only [snapshot, rename_removeComments, rename_removeUndefined,
    rename_removeUnresolved injective empty,
    rename_restoreConnections extension injective hresolved, rename_breakFlowCycles injective,
    List.map_append]

end Graph

end ScriptGraph
