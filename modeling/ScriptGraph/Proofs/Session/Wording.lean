import ScriptGraph.Proofs.Graph.Keys

/-!
Changes of what nodes say. Of all that an action does to a graph, few changes touch the names and
literals of nodes or bring new ones, so that what is said of these has to be looked at for those only.
-/

set_option autoImplicit false
set_option relaxedAutoImplicit false

namespace ScriptGraph

/-- A change after which some node may say what none has said. -/
inductive Rewording (c : Catalog) : Action → Workspace → Graph → Prop
  | declare {a g p} {d : Definition} (found : c.find? d.fullName = some d)
      (declares : d.kind = .variable) (room : publicInput < d.inputs.length) {name : String}
      (free : isInternalName name = false ∨ name = returnVariableName) (isPublic : Bool) :
    Rewording c a (g, p) (g.push (Session.declaration d (g.unusedNameLike name) isPublic p.draw.1))
  | add {a g p} {d : Definition} (found : c.find? d.fullName = some d) (other : d.kind ≠ .variable)
      (single : d.kind = .event → ∀ n ∈ g.nodes, n.fullName ≠ d.fullName) (position : Position) :
    Rewording c a (g, p) (g.push { Node.fresh p.draw.1 d with position })
  | access {a g p} {use : Access} {variableUid : Uid} {d : Definition}
      (found : c.find? use.fullName = some d)
      (single : use = .change → g.checkSingleChange variableUid none = .ok ()) (position : Position) :
    Rewording c a (g, p) (g.push
      { Node.fresh p.draw.1 d with
        position, values := (Node.fresh p.draw.1 d).values.set 0 (.text variableUid) })
  | bind {a g p} {uid target : Uid} {n : Node} {name type : String} (found : g.find? uid = some n)
      (needs : (Manner.ofName n.fullName).internalVariable? = some (name, type)) :
    Rewording c a (g, p) (g.update uid fun n => { n with values := n.values.set 0 (.text target) })
  /-- A variable gets a new name. -/
  | rename {a g p} {uid : Uid} {name given : String} {h : Graph}
      (renames : g.renameVariable uid name = .ok (given, some h)) : Rewording c a (g, p) h
  /-- A literal is stored, other than the name of a variable. -/
  | store {a g p} {n : Node} {d : Definition} {index : Nat} {value : Value} {h : Graph}
      (found : g.find? n.uid = some n) (defined : c.find? n.fullName = some d)
      (other : n.isVariable → index ≠ nameInput)
      (stores : g.storeValue n d index value = .ok h) : Rewording c a (g, p) h
  | switch {uid : Uid} {fullName : String} {g p} {h : Graph}
      (switches : g.setOverload c uid fullName = .ok h) :
    Rewording c (.setOverload uid fullName) (g, p) h
  | repair {a g p} : Rewording c a (g, p) (g.repaired c)
  | paste {text : String} {anchor : Position} {g p} {clipping : Clipping}
      (holds : Clipping.ofText text = .ok clipping) :
    Rewording c (.paste text anchor) (g, p)
      (g.extended c ((Plan.ofClipping c g anchor p clipping).additions g))

variable {c : Catalog} {a : Action} {g h : Graph} {p q : Supply}

theorem Change.rewording (change : Change c a (g, p) (h, q)) :
    h.Echoes g ∨ Rewording c a (g, p) h := by
  have same : ∀ {h : Graph}, h.nodes = g.nodes → h.Echoes g := fun same =>
    Graph.echoes_of_subset fun m hm => same ▸ hm
  cases change with
  | draw => exact .inl (.refl g)
  | rename name => exact .inl (same rfl)
  | reorder updateOrder => exact .inl (same rfl)
  | move uid position =>
    refine .inl (Graph.update_echoes (fun n => ?_) g uid)
    exact ⟨rfl, rfl, rfl⟩
  | declare found declares room free isPublic =>
    exact .inr (.declare found declares room free isPublic)
  | add found other single position => exact .inr (.add found other single position)
  | access found declared single position => exact .inr (.access found single position)
  | bind found defined needs => exact .inr (.bind found needs)
  | removeNode removes =>
    obtain ⟨n, -, rfl, rfl⟩ := Graph.removeNode_eq_ok removes
    exact .inl ((Graph.relayoutBlocks_echoes _ c).trans (g.foldl_extract_echoes _))
  | connectValue connects =>
    obtain ⟨-, -, -, -, -, -, -, -, -, -, rfl⟩ := Graph.connectValue_eq_ok connects
    refine .inl (Graph.update_echoes (fun n => ?_) g _)
    exact ⟨rfl, rfl, rfl⟩
  | disconnectValue clears =>
    obtain rfl := Graph.disconnectValue_eq_ok clears
    refine .inl (Graph.update_echoes (fun n => ?_) g _)
    exact ⟨rfl, rfl, rfl⟩
  | connectFlow connects =>
    obtain ⟨-, -, -, -, -, -, -, -, -, -, -, rfl⟩ := Graph.connectFlow_eq_ok connects
    refine .inl ((Graph.relayout_echoes _ c _).trans (Graph.update_echoes (fun n => ?_) g _))
    exact ⟨rfl, rfl, rfl⟩
  | disconnectFlow clears =>
    obtain rfl := Graph.disconnectFlow_eq_ok clears
    refine .inl ((Graph.relayout_echoes _ c _).trans (Graph.update_echoes (fun n => ?_) g _))
    exact ⟨rfl, rfl, rfl⟩
  | renameVariable renames => exact .inr (.rename renames)
  | setValue sets =>
    obtain ⟨n, d, found, defined, ⟨other, stores⟩ | ⟨name, given, renames⟩⟩ :=
      Graph.setValue_eq_ok sets
    · exact .inr (.store ((Graph.find?_uid found).symm ▸ found) defined other stores)
    · exact .inr (.rename renames)
  | setOverload switches => exact .inr (.switch switches)
  | repair => exact .inr .repair
  | paste holds => exact .inr (.paste holds)

namespace Graph

variable {m : Node}

theorem uncommented_echoes (g : Graph) : g.uncommented.Echoes g := by
  unfold uncommented
  generalize Session.comments g = comments
  induction comments generalizing g with
  | nil => exact .refl g
  | cons n comments ih => exact (ih _).trans (extract_echoes g n.uid)

theorem WellFormed.mem_repaired (formed : g.WellFormed c) (listed : m ∈ (g.repaired c).nodes) :
    ∃ n ∈ g.nodes, ∃ d, c.find? n.fullName = some d ∧ m.Echoes (n.settle d) := by
  obtain ⟨-, defined⟩ := uncommented_resolved c formed.distinct
  obtain ⟨k, hk, d, found, rfl⟩ := mem_restoreConnections defined listed
  obtain ⟨n, hn, echoes⟩ := uncommented_echoes g k (List.mem_filter.mp hk).1
  obtain ⟨e, known, conforms⟩ := formed.conforms n hn
  obtain rfl : d = e := Option.some.inj (found.symm.trans (echoes.fullName ▸ known))
  refine ⟨n, hn, d, known, echoes.uid, echoes.fullName, ?_⟩
  change Node.settled d 0 (k.values ++ d.initialValues.drop k.values.length) = _
  have complete : d.initialValues.drop n.values.length = [] := by
    rw [List.drop_eq_nil_iff, Definition.initialValues, List.length_map]
    exact conforms.values
  rw [echoes.values, complete, List.append_nil]
  rfl

end Graph

end ScriptGraph
