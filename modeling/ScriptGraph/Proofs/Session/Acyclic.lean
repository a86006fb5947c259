import ScriptGraph.Proofs.Graph.Flow
import ScriptGraph.Proofs.Session.WellFormed
import ScriptGraph.Proofs.Snapshot.Cycles

/-!
Flow stays without cycles. Connecting a flow looks for a way back first, and of the other changes only
pasting adds flows: those that the nodes of the clipping have among each other.
-/

set_option autoImplicit false
set_option relaxedAutoImplicit false

namespace ScriptGraph

open Relation (TransGen ReflTransGen)

section Paths

variable {α : Type} {r r' : α → α → Prop} {x y : α}

private theorem transGen_within (inside : α → Prop)
    (step : ∀ x y, inside x → r x y → inside y ∧ r' x y) (path : TransGen r x y) (start : inside x) :
    inside y ∧ TransGen r' x y := by
  induction path with
  | single last =>
    obtain ⟨here, last⟩ := step _ _ start last
    exact ⟨here, .single last⟩
  | tail _ last ih =>
    obtain ⟨here, last⟩ := step _ _ ih.1 last
    exact ⟨here, ih.2.tail last⟩

theorem transGen_edge {source target : α}
    (edge : ∀ x y, r' x y → r x y ∨ x = source ∧ y = target) (path : TransGen r' x y) :
    TransGen r x y ∨ ReflTransGen r x source ∧ ReflTransGen r target y := by
  induction path with
  | single last =>
    rcases edge _ _ last with last | ⟨rfl, rfl⟩
    · exact Or.inl (.single last)
    · exact Or.inr ⟨.refl, .refl⟩
  | tail _ last ih =>
    rcases edge _ _ last with last | ⟨rfl, rfl⟩ <;> rcases ih with path | ⟨first, second⟩
    · exact Or.inl (path.tail last)
    · exact Or.inr ⟨first, second.tail last⟩
    · exact Or.inr ⟨path.to_reflTransGen, .refl⟩
    · exact Or.inr ⟨first, .refl⟩

end Paths

/-! ## Clippings -/

namespace Clipping

/-- A flow output of a node leads to a uid. -/
def Leads (k : Clipping) (u v : Uid) : Prop := ∃ n ∈ k.nodes, n.uid = u ∧ some v ∈ n.flows

/-- The flows of the nodes form no cycle. -/
def Acyclic (k : Clipping) : Prop := ∀ u, ¬TransGen k.Leads u u

end Clipping

/-- An action does not paste a cycle of flows. -/
def Action.PastesNoCycle : Action → Prop
  | .paste text _ => ∀ k, Clipping.ofText text = .ok k → k.Acyclic
  | _ => True

variable {c : Catalog} {a : Action} {g h : Graph} {p q : Supply} {uid u v : Uid}

def Plan.Adds (plan : Plan) (g : Graph) (u v : Uid) : Prop :=
  ∃ m ∈ plan.additions g, m.uid = u ∧ some v ∈ m.flows

private theorem additions_path {anchor : Position} {plan : Plan} {clipping : Clipping}
    (sketches : plan.Sketches c g anchor p clipping.nodes) (fresh : p.Fresh g.uids)
    (path : TransGen (plan.Adds g) u v) :
    ∀ t, (t, u) ∈ plan.uids → ∃ t', (t', v) ∈ plan.uids ∧ TransGen clipping.Leads t t' := by
  have step : ∀ {u v}, plan.Adds g u v → ∀ t, (t, u) ∈ plan.uids →
      ∃ t', (t', v) ∈ plan.uids ∧ clipping.Leads t t' := by
    rintro u v ⟨m, hm, rfl, listed⟩ t stands
    obtain ⟨k, hk, rfl⟩ := Plan.mem_additions hm
    obtain ⟨-, t', there, found⟩ := Plan.mem_flows_brought listed
    obtain ⟨n, hn, drafts, pair⟩ := sketches.drafts k hk
    rw [Plan.brought_uid] at stands
    obtain rfl := sketches.single fresh _ _ _ pair stands (List.mem_map_of_mem hk)
    exact ⟨t', mem_of_lookup_eq_some found, n, hn, rfl, drafts.flows there⟩
  induction path with
  | single last =>
    intro t stands
    obtain ⟨t', stands', leads⟩ := step last t stands
    exact ⟨t', stands', .single leads⟩
  | tail _ last ih =>
    intro t stands
    obtain ⟨t', stands', path⟩ := ih t stands
    obtain ⟨t'', stands'', leads⟩ := step last t' stands'
    exact ⟨t'', stands'', path.tail leads⟩

private theorem paste_acyclic (sound : Sound c g p) (acyclic : ∀ u, ¬TransGen g.Leads u u)
    (anchor : Position) {clipping : Clipping} (harmless : clipping.Acyclic) :
    ∀ u, ¬TransGen
      (g.extended c ((Plan.ofClipping c g anchor p clipping).additions g)).Leads u u := by
  have sketches := Plan.ofClipping_sketches c g anchor p clipping
  generalize Plan.ofClipping c g anchor p clipping = plan at sketches
  have new : ∀ {v}, v ∈ plan.added g → v ∉ g.uids := fun listed =>
    sound.fresh.upcoming_unused (sketches.uids ▸ (plan.added_sublist g).subset listed)
  have split : ∀ {u v}, (g.extended c (plan.additions g)).Leads u v →
      g.Leads u v ∨ plan.Adds g u v := by
    intro u v leads
    obtain ⟨m, hm, here, listed⟩ := (Graph.foldl_relayout_fewer _ c _).flows u v leads
    exact (List.mem_append.mp hm).imp (fun hm => ⟨m, hm, here, listed⟩)
      fun hm => ⟨m, hm, here, listed⟩
  intro u cycle
  by_cases old : u ∈ g.uids
  · refine acyclic u (transGen_within (· ∈ g.uids) (fun x y there leads => ?_) cycle old).2
    rcases split leads with ⟨n, hn, here, listed⟩ | ⟨m, hm, rfl, -⟩
    · exact ⟨sound.formed.flows n hn y listed, n, hn, here, listed⟩
    · exact absurd there (new (List.mem_map_of_mem hm))
  · have path : TransGen (plan.Adds g) u u := by
      refine (transGen_within (· ∉ g.uids) (fun x y there leads => ?_) cycle old).2
      rcases split leads with ⟨n, hn, rfl, -⟩ | ⟨m, hm, here, listed⟩
      · exact absurd (Graph.uid_mem hn) there
      · obtain ⟨k, hk, rfl⟩ := Plan.mem_additions hm
        exact ⟨new (Plan.mem_flows_brought listed).1, _, hm, here, listed⟩
    obtain ⟨-, ⟨m, hm, rfl, -⟩, -⟩ := TransGen.head'_iff.mp path
    obtain ⟨k, hk, rfl⟩ := Plan.mem_additions hm
    obtain ⟨n, -, -, pair⟩ := sketches.drafts k hk
    rw [Plan.brought_uid] at path
    obtain ⟨t, stands, cycle⟩ := additions_path sketches sound.fresh path n.uid pair
    obtain rfl := sketches.single sound.fresh _ _ _ pair stands (List.mem_map_of_mem hk)
    exact harmless n.uid cycle

/-! ## Single changes -/

private theorem repaired_leads (leads : (g.repaired c).Leads u v) : g.Leads u v := by
  have uncommented : ∀ (comments : List Node) (h : Graph),
      (comments.foldl (fun g n => g.extract n.uid) h).Leads u v → h.Leads u v := by
    intro comments
    induction comments with
    | nil => exact fun _ => id
    | cons n comments ih => exact fun h leads => (h.extract_fewer n.uid).flows u v (ih _ leads)
  obtain ⟨n, hn, there⟩ := Graph.restoreConnections_leads leads
  exact uncommented _ g ⟨n, (List.mem_filter.mp hn).1, there⟩

private theorem connectFlow_leads {source target : Uid} {port : Nat}
    (connects : g.connectFlow c source port target = .ok h) (leads : h.Leads u v) :
    g.Leads u v ∨ u = source ∧ v = target := by
  obtain ⟨-, -, -, -, -, -, -, -, -, -, -, rfl⟩ := Graph.connectFlow_eq_ok connects
  exact Graph.leads_of_set ((Graph.relayout_fewer _ c source).flows u v leads)

theorem Change.acyclic (change : Change c a (g, p) (h, q)) (sound : Sound c g p)
    (acyclic : ∀ u, ¬TransGen g.Leads u u) (harmless : a.PastesNoCycle) :
    ∀ u, ¬TransGen h.Leads u u := by
  have fewer : ∀ {h : Graph}, (∀ u v, h.Leads u v → g.Leads u v) → ∀ u, ¬TransGen h.Leads u u :=
    fun less u cycle => acyclic u (Relation.TransGen.mono less u u cycle)
  cases change with
  | draw => exact acyclic
  | rename name => exact acyclic
  | reorder order => exact acyclic
  | move uid position => exact fewer fun _ _ leads => Graph.leads_of_update leads fun _ => ⟨rfl, rfl⟩
  | declare found declares room free isPublic =>
    exact fewer fun u v => Graph.leads_of_push fun _ => Node.fresh_flows
  | add found other single position =>
    exact fewer fun u v => Graph.leads_of_push fun _ => Node.fresh_flows
  | access found declared single position =>
    exact fewer fun u v => Graph.leads_of_push fun _ => Node.fresh_flows
  | bind found defined needs =>
    exact fewer fun _ _ leads => Graph.leads_of_update leads fun _ => ⟨rfl, rfl⟩
  | removeNode removes =>
    obtain ⟨n, -, rfl, rfl⟩ := Graph.removeNode_eq_ok removes
    exact fewer ((Graph.relayoutBlocks_fewer _ c).trans (g.foldl_extract_fewer _)).flows
  | connectValue connects =>
    obtain ⟨-, -, -, -, -, -, -, -, -, -, rfl⟩ := Graph.connectValue_eq_ok connects
    exact fewer fun _ _ leads => Graph.leads_of_update leads fun _ => ⟨rfl, rfl⟩
  | disconnectValue clears =>
    obtain rfl := Graph.disconnectValue_eq_ok clears
    exact fewer fun _ _ leads => Graph.leads_of_update leads fun _ => ⟨rfl, rfl⟩
  | connectFlow connects =>
    obtain ⟨apart, noWay, -⟩ := Graph.connectFlow_eq_ok connects
    intro u cycle
    rcases transGen_edge (fun x y => connectFlow_leads connects) cycle with cycle | ⟨first, second⟩
    · exact acyclic u cycle
    · -- The cycle closes by the new flow, so there was a way back already.
      rcases Relation.reflTransGen_iff_eq_or_transGen.mp (second.trans first) with same | back
      · exact apart same
      · exact noWay ((Graph.mem_flowSuccessors sound.formed.distinct).mpr back)
  | disconnectFlow clears =>
    obtain rfl := Graph.disconnectFlow_eq_ok clears
    exact fewer ((Graph.relayout_fewer _ c _).trans
      (Graph.update_fewer (fun n => n.clearFlow_fewer _) g _)).flows
  | renameVariable renames =>
    obtain ⟨-, -, -, -, -, -, rfl⟩ := Graph.renameVariable_eq_ok renames
    exact fewer fun _ _ leads => Graph.leads_of_update leads fun _ => ⟨rfl, rfl⟩
  | setValue sets =>
    obtain ⟨n, d, -, -, ⟨-, stores⟩ | ⟨name, given, renames⟩⟩ := Graph.setValue_eq_ok sets
    · obtain ⟨-, -, -, rfl⟩ := Graph.storeValue_eq_ok stores
      exact fewer fun _ _ leads => Graph.leads_of_update leads fun _ => ⟨rfl, rfl⟩
    · obtain ⟨-, -, -, -, -, -, rfl⟩ := Graph.renameVariable_eq_ok renames
      exact fewer fun _ _ leads => Graph.leads_of_update leads fun _ => ⟨rfl, rfl⟩
  | setOverload switches =>
    obtain ⟨n, d, -, -, -, -, rfl⟩ := Graph.setOverload_eq_ok switches
    exact fewer ((Graph.mapNodes_fewer (fun n => n.dropLinks_fewer _ _) _).trans
      (Graph.update_fewer (fun n => n.switched_fewer d) g _)).flows
  | repair => exact fewer fun u v => repaired_leads
  | paste holds => exact paste_acyclic sound acyclic _ (harmless _ holds)

/-! ## Histories -/

namespace Session

/-- Flow stays acyclic in every history that pastes no cycle. -/
theorem after_acyclic {s : Session} (distinct : s.catalog.Distinct)
    (sound : Sound s.catalog s.graph s.supply) (acyclic : s.graph.Acyclic) {actions : List Action}
    (harmless : ∀ action ∈ actions, action.PastesNoCycle) : (s.after actions).graph.Acyclic := by
  have start := (Graph.acyclic_iff sound.formed.distinct).mp acyclic
  obtain ⟨-, sound, acyclic⟩ := after_induct
    (fun g p => Sound s.catalog g p ∧ ∀ u, ¬TransGen g.Leads u u) s
    (fun action listed _ _ _ _ change kept =>
      ⟨change.sound distinct kept.1, change.acyclic kept.1 kept.2 (harmless action listed)⟩)
    ⟨sound, start⟩
  exact (Graph.acyclic_iff sound.formed.distinct).mpr acyclic

theorem after_acyclic_chain : ((create Catalog.intrinsic .default .strokes).after
    [.paste Clipping.chainText .origin, .connectFlow "|||" 0 "||", .reload]).graph.Acyclic := by
  have sound := Begun.sound Catalog.intrinsic_distinct
    (.created .default (Supply.strokes_fresh (by simp)))
  refine after_acyclic Catalog.intrinsic_distinct sound.2 (fun n listed => by cases listed) ?_
  intro action listed
  simp only [List.mem_cons, List.not_mem_nil, or_false] at listed
  rcases listed with rfl | rfl | rfl
  · intro k holds
    obtain rfl : Clipping.chain = k := Except.ok.inj (Clipping.ofText_chainText.symm.trans holds)
    -- The clipping has the flows of a graph with the same nodes.
    have acyclic : ({ Graph.empty "" with nodes := Clipping.chain.nodes } : Graph).Acyclic := by
      unfold Graph.Acyclic
      decide +kernel
    exact (Graph.acyclic_iff (by decide)).mp acyclic
  · trivial
  · trivial

/-- Two blocks that lead to each other, as a text. -/
def cycleText : String :=
  "AW8AkP97Im5vZGVzIjpbeyJ1aWQiOiJhIiwiZnVsbF9uYW1lIjoiQmxvY2siLCJmbG93X3VpZHMiOlsiYiJdfSx7InVpZCI" ++
    "6ImIiLCJmdWxsX25hbWUiOiJCbG9jayIsImZsb3dfdWlkcyI6WyJhIl19XX0="

/-- Two blocks that lead to each other, pasted into a graph without nodes, are its cycle. -/
theorem cyclic_after_paste : ¬((create Catalog.intrinsic .default .strokes).after
    [.paste cycleText .origin]).graph.Acyclic := by
  unfold Graph.Acyclic
  decide +kernel

end Session

end ScriptGraph
