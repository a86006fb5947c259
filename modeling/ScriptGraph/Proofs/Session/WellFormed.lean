import ScriptGraph.Proofs.Clipping.Plan
import ScriptGraph.Proofs.Compilation.Total
import ScriptGraph.Proofs.Graph.WellFormed

/-!
The graph of a session stays well-formed. Identities that a session draws stay new to it: no change
takes a uid into use that was neither there nor drawn by it. As long as identities are drawn that are
new to the graph, every change that an action makes keeps it well-formed.
-/

set_option autoImplicit false
set_option relaxedAutoImplicit false

/-! ## Identities -/

namespace ScriptGraph

variable {c : Catalog} {a : Action} {g h : Graph} {p q : Supply} {uid : Uid}

namespace Graph

theorem mem_uids_of_extract {u : Uid} (listed : u ∈ (g.extract uid).uids) : u ∈ g.uids := by
  rw [uids_extract] at listed
  exact (List.eraseP_sublist.map Node.uid).subset listed

theorem mem_uids_of_foldl_extract {u : Uid} {uids : List Uid}
    (listed : u ∈ (uids.foldl extract g).uids) : u ∈ g.uids := by
  induction uids generalizing g with
  | nil => exact listed
  | cons uid uids ih => exact mem_uids_of_extract (ih listed)

theorem mem_uids_of_removeNode {u : Uid} {removed : List Uid}
    (removes : g.removeNode c uid = .ok (removed, h)) (listed : u ∈ h.uids) : u ∈ g.uids := by
  obtain ⟨n, -, -, rfl⟩ := removeNode_eq_ok removes
  rw [uids_relayoutBlocks] at listed
  exact mem_uids_of_foldl_extract listed

theorem mem_uids_of_repaired {u : Uid} (listed : u ∈ (g.repaired c).uids) : u ∈ g.uids := by
  have uncommented : ∀ (comments : List Node) (h : Graph),
      u ∈ (comments.foldl (fun g n => g.extract n.uid) h).uids → u ∈ h.uids := by
    intro comments
    induction comments with
    | nil => exact fun _ => id
    | cons n comments ih => exact fun h listed => mem_uids_of_extract (ih _ listed)
  have same : (g.repaired c).uids = (g.uncommented.removeUndefined c).1.uids :=
    uids_mapNodes fun n => by split <;> rfl
  rw [same] at listed
  have part : (g.uncommented.removeUndefined c).1.uids.Sublist g.uncommented.uids :=
    List.filter_sublist.map Node.uid
  exact uncommented _ g (part.subset listed)

theorem uids_push (g : Graph) (n : Node) : (g.push n).uids = g.uids ++ [n.uid] := List.map_append

theorem uids_setLiteral (g : Graph) (index : Nat) (value : Value) :
    (g.update uid fun n => { n with values := n.values.set index value }).uids = g.uids :=
  uids_update fun _ => rfl

theorem uids_setFlow (g : Graph) (port : Nat) (flow : Option Uid) :
    ((g.update uid fun n => { n with flows := n.flows.set port flow }).relayout c uid).uids =
      g.uids :=
  (uids_relayout _ c uid).trans (uids_update fun _ => rfl)

theorem uids_pasted (c : Catalog) (g : Graph) (anchor : Position) (p : Supply)
    (clipping : Clipping) : ∃ added, added.Sublist
        (p.upcoming (Plan.ofClipping c g anchor p clipping).nodes.length) ∧
      (g.extended c ((Plan.ofClipping c g anchor p clipping).additions g)).uids =
        g.uids ++ added := by
  have part := (Plan.ofClipping c g anchor p clipping).added_sublist g
  rw [(Plan.ofClipping_sketches c g anchor p clipping).uids] at part
  exact ⟨_, part, (uids_foldl_relayout _ c _).trans List.map_append⟩

end Graph

theorem Change.fresh (change : Change c a (g, p) (h, q)) (fresh : p.Fresh g.uids) :
    q.Fresh h.uids := by
  have pushes : ∀ {n : Node}, n.uid = p.draw.1 → p.draw.2.Fresh (g.push n).uids := by
    intro n drawn
    rw [Graph.uids_push, drawn]
    exact fresh.draw
  have kept : ∀ {h : Graph}, h.uids = g.uids → p.Fresh h.uids := fun same => same ▸ fresh
  cases change with
  | draw => exact fresh.draw.of_subset fun u listed => List.mem_append_left _ listed
  | rename name => exact fresh
  | reorder order => exact fresh
  | move uid position => exact kept (Graph.uids_update fun _ => rfl)
  | declare => exact pushes rfl
  | add => exact pushes rfl
  | access => exact pushes rfl
  | bind => exact kept (g.uids_setLiteral _ _)
  | removeNode removes => exact fresh.of_subset fun u => Graph.mem_uids_of_removeNode removes
  | connectValue connects =>
    obtain ⟨-, -, -, -, -, -, -, -, -, -, rfl⟩ := Graph.connectValue_eq_ok connects
    exact kept (Graph.uids_update fun _ => rfl)
  | disconnectValue clears =>
    obtain rfl := Graph.disconnectValue_eq_ok clears
    exact kept (Graph.uids_update fun _ => rfl)
  | connectFlow connects =>
    obtain ⟨-, -, -, -, -, -, -, -, -, -, -, rfl⟩ := Graph.connectFlow_eq_ok connects
    exact kept (g.uids_setFlow _ _)
  | disconnectFlow clears =>
    obtain rfl := Graph.disconnectFlow_eq_ok clears
    exact kept (g.uids_setFlow _ _)
  | renameVariable renames =>
    obtain ⟨-, -, -, -, -, -, rfl⟩ := Graph.renameVariable_eq_ok renames
    exact kept (g.uids_setLiteral _ _)
  | setValue sets =>
    obtain ⟨n, d, -, -, ⟨-, stores⟩ | ⟨name, given, renames⟩⟩ := Graph.setValue_eq_ok sets
    · obtain ⟨-, -, -, rfl⟩ := Graph.storeValue_eq_ok stores
      exact kept (g.uids_setLiteral _ _)
    · obtain ⟨-, -, -, -, -, -, rfl⟩ := Graph.renameVariable_eq_ok renames
      exact kept (g.uids_setLiteral _ _)
  | setOverload switches =>
    obtain ⟨-, d, -, -, -, -, rfl⟩ := Graph.setOverload_eq_ok switches
    refine kept ((Graph.uids_mapNodes fun m => (m.dropLinks_fewer _ _).uid).trans ?_)
    exact Graph.uids_update fun m => (m.switched_fewer d).uid
  | repair => exact fresh.of_subset fun u => Graph.mem_uids_of_repaired
  | @paste _ anchor _ _ clipping =>
    obtain ⟨added, drawn, uids⟩ := Graph.uids_pasted c g anchor p clipping
    rw [uids, (Plan.ofClipping_sketches c g anchor p clipping).supply]
    refine (fresh.skip _).of_subset fun u listed => ?_
    exact List.mem_append.mpr ((List.mem_append.mp listed).imp_right fun new => drawn.subset new)

namespace Session

/-- A session has been created without nodes, or opened for an asset of some sort. Identities that it
draws are new to its graph. -/
inductive Begun (c : Catalog) (sort : Asset → Prop) : Session → Prop
  | created (settings : Settings) {supply : Supply} (fresh : supply.Fresh []) :
    Begun c sort (create c settings supply)
  | opened {asset : Asset} {settings : Settings} {supply : Supply} {s : Session}
      (sorted : sort asset) (fresh : supply.Fresh asset.graph.uids)
      (opens : ofAsset c asset settings supply = .ok s) : Begun c sort s

variable {sort : Asset → Prop} {s : Session}

theorem reload_of_ofAsset {asset : Asset} {settings : Settings} {supply : Supply}
    (opens : ofAsset c asset settings supply = .ok s) :
    s = ({ create c settings supply with
      graph := asset.graph, layout := asset.layout } : Session).reload.2 := by
  unfold ofAsset at opens
  split at opens
  · cases opens
  · rename_i outcome
    cases opens
    exact (congrArg Prod.snd outcome).symm

/-- What holds of the graph when a session begins: for one that is opened, repaired before nodes get
the variables they need. -/
theorem Begun.induct (Keeps : Graph → Supply → Prop) (begun : s.Begun c sort)
    (empty : ∀ name (p : Supply), p.Fresh [] → Keeps (.empty name) p)
    (repaired : ∀ (asset : Asset) (p : Supply), sort asset → p.Fresh asset.graph.uids →
      Keeps (asset.graph.repaired c) p)
    (step : ∀ {g h : Graph} {p q : Supply}, Change c .reload (g, p) (h, q) → Keeps g p → Keeps h q) :
    s.catalog = c ∧ Keeps s.graph s.supply := by
  cases begun with
  | created settings fresh =>
    exact ⟨rfl, empty _ _ (fresh.draw.of_subset fun _ listed => absurd listed List.not_mem_nil)⟩
  | @opened asset settings supply s sorted fresh opens =>
    let start : Session :=
      { create c settings supply with graph := asset.graph, layout := asset.layout }
    obtain ⟨catalog, work⟩ := start.restore_work
    have fresh' : supply.draw.2.Fresh asset.graph.uids :=
      fresh.draw.of_subset fun _ listed => List.mem_append_left _ listed
    obtain ⟨catalog', changes⟩ := start.restore_makes_reload (a := .reload)
    rw [reload_of_ofAsset opens, catalog', catalog]
    refine ⟨rfl, ?_⟩
    rw [catalog, work] at changes
    exact changes_induct Keeps step changes (repaired _ _ sorted fresh')

theorem Begun.fresh (begun : s.Begun c sort) : s.catalog = c ∧ s.supply.Fresh s.graph.uids :=
  begun.induct (fun g p => p.Fresh g.uids) (fun _ _ => id)
    (fun _ _ _ fresh => fresh.of_subset fun _ => Graph.mem_uids_of_repaired) Change.fresh

end Session

end ScriptGraph

/-! ## Well-formed graphs -/

namespace ScriptGraph

variable {c : Catalog} {a : Action} {g h : Graph} {p q : Supply} {uid : Uid} {d : Definition}

namespace Graph

/-! ## Edits that look at one node only -/

theorem WellFormed.setPosition (formed : g.WellFormed c) (position : Position) :
    (g.update uid fun n => { n with position }).WellFormed c :=
  formed.update (fun _ => ⟨rfl, fun _ => id, fun _ => id⟩) fun _ _ _ d found conforms =>
    ⟨d, found, conforms.of_same rfl rfl rfl⟩

theorem WellFormed.setLiteral (formed : g.WellFormed c) (index : Nat) (value : Value) :
    (g.update uid fun n => { n with values := n.values.set index value }).WellFormed c := by
  refine formed.update (fun _ => ⟨rfl, fun _ => id, fun _ => id⟩) fun n _ _ d found conforms => ?_
  exact ⟨d, found, conforms.of_same rfl List.length_set rfl⟩

theorem WellFormed.switched (formed : g.WellFormed c) (found : c.find? d.fullName = some d) :
    ((g.update uid (switched d)).mapNodes (dropLinks uid d.outputs.length)).WellFormed c := by
  refine WellFormed.mapNodes ?_ (fun n => n.dropLinks_fewer uid _) fun n _ e found conforms => ?_
  · refine formed.update (fun n => n.switched_fewer d) fun n _ _ _ _ _ => ?_
    exact ⟨d, found, (Node.conform_conforms _ d).settle⟩
  · exact ⟨e, found, ⟨(List.length_map _).trans conforms.links, conforms.values, conforms.flows,
      conforms.compact⟩⟩

theorem WellFormed.connected (formed : g.WellFormed c) {source target : Uid} {input output : Nat}
    (there : source ∈ g.uids) : (g.update target fun n =>
      { n with links := n.links.set input (some ⟨source, output⟩) }).WellFormed c := by
  have same : (g.update target fun n =>
      { n with links := n.links.set input (some ⟨source, output⟩) }).uids = g.uids :=
    uids_update fun _ => rfl
  refine ⟨same ▸ formed.distinct, fun m hm => ?_, fun m hm link listed => ?_,
    fun m hm v listed => ?_⟩
  · rcases mem_update hm with hm | ⟨n, hn, -, rfl⟩
    · exact formed.conforms m hm
    · obtain ⟨d, found, conforms⟩ := formed.conforms n hn
      exact ⟨d, found, ⟨List.length_set.trans conforms.links, conforms.values, conforms.flows,
        conforms.compact⟩⟩
  · rw [same]
    rcases mem_update hm with hm | ⟨n, hn, -, rfl⟩
    · exact formed.links m hm link listed
    · rcases List.mem_or_eq_of_mem_set listed with listed | new
      · exact formed.links n hn link listed
      · cases new
        exact there
  · rw [same]
    rcases mem_update hm with hm | ⟨n, hn, -, rfl⟩
    · exact formed.flows m hm v listed
    · exact formed.flows n hn v listed

theorem WellFormed.setFlow (formed : g.WellFormed c) (port : Nat) {flow : Option Uid}
    (there : ∀ target, flow = some target → target ∈ g.uids) :
    ((g.update uid fun n => { n with flows := n.flows.set port flow }).relayout c uid).WellFormed
      c := by
  refine formed.reflow (fun _ => ⟨rfl, rfl, rfl, rfl, List.length_set⟩) fun n target listed => ?_
  exact (List.mem_or_eq_of_mem_set listed).imp_right fun new => there target new.symm

end Graph

/-! ## Single changes -/

/-- A well-formed graph with a supply of identities that are new to it. -/
structure Sound (c : Catalog) (g : Graph) (p : Supply) : Prop where
  formed : g.WellFormed c
  fresh : p.Fresh g.uids

theorem Sound.paste (sound : Sound c g p) (anchor : Position) (clipping : Clipping) :
    (g.extended c ((Plan.ofClipping c g anchor p clipping).additions g)).WellFormed c := by
  have sketches := Plan.ofClipping_sketches c g anchor p clipping
  generalize Plan.ofClipping c g anchor p clipping = plan at sketches
  have part := plan.added_sublist g
  rw [sketches.uids] at part
  refine sound.formed.extended ((sound.fresh.upcoming_nodup _).sublist part) (fun m hm => ?_)
    (fun m hm => ?_) (fun m hm link listed => ?_) fun m hm target listed => ?_
  · exact sound.fresh.upcoming_unused (part.subset (List.mem_map_of_mem hm))
  · obtain ⟨k, hk, rfl⟩ := Plan.mem_additions hm
    obtain ⟨n, -, drafts, -⟩ := sketches.drafts k hk
    obtain ⟨d, found, -, conforms⟩ := drafts.conforms
    rw [Plan.brought_fullName]
    exact ⟨d, found, Plan.brought_sized conforms.sized⟩
  · obtain ⟨k, hk, rfl⟩ := Plan.mem_additions hm
    exact (Plan.mem_links_brought listed).1
  · obtain ⟨k, hk, rfl⟩ := Plan.mem_additions hm
    exact (Plan.mem_flows_brought listed).1

theorem Sound.push (sound : Sound c g p) {n : Node} (uid : n.uid = p.draw.1)
    (found : c.find? n.fullName = some d) (conforms : n.Conforms d)
    (links : ∀ link, some link ∉ n.links) (flows : ∀ target, some target ∉ n.flows) :
    (g.push n).WellFormed c :=
  sound.formed.push (uid ▸ sound.fresh.draw_unused) found conforms links flows

theorem declaration_conforms (d : Definition) (name : String) (isPublic : Bool) (uid : Uid) :
    (Session.declaration d name isPublic uid).Conforms d :=
  (Node.fresh_conforms uid d).of_same rfl (List.length_set.trans List.length_set) rfl

theorem Change.sound (distinct : c.Distinct) (change : Change c a (g, p) (h, q))
    (sound : Sound c g p) : Sound c h q := by
  have formed := sound.formed
  refine ⟨?_, change.fresh sound.fresh⟩
  cases change with
  | draw => exact formed
  | rename name => exact ⟨formed.distinct, formed.conforms, formed.links, formed.flows⟩
  | reorder order => exact ⟨formed.distinct, formed.conforms, formed.links, formed.flows⟩
  | move uid position => exact formed.setPosition position
  | @declare _ _ _ d found declares room name free isPublic =>
    exact sound.push rfl found (declaration_conforms d _ isPublic _) (fun _ => Node.fresh_links)
      fun _ => Node.fresh_flows
  | @add _ _ _ d found other single position =>
    exact sound.push rfl found ((Node.fresh_conforms p.draw.1 d).of_same rfl rfl rfl)
      (fun _ => Node.fresh_links) fun _ => Node.fresh_flows
  | @access _ _ _ use variableUid d found declared single position =>
    have known : c.find? d.fullName = some d := (Catalog.find?_fullName found).symm ▸ found
    exact sound.push rfl known ((Node.fresh_conforms p.draw.1 d).of_same rfl List.length_set rfl)
      (fun _ => Node.fresh_links) fun _ => Node.fresh_flows
  | bind found defined needs => exact formed.setLiteral _ _
  | removeNode removes =>
    obtain ⟨n, -, rfl, rfl⟩ := Graph.removeNode_eq_ok removes
    obtain ⟨loose, rest⟩ := (formed.formed fun _ => False).foldl_extract (g.doomed n)
    exact rest.relayoutBlocks
  | connectValue connects =>
    obtain ⟨-, n, -, -, -, found, -, -, -, -, rfl⟩ := Graph.connectValue_eq_ok connects
    refine formed.connected ?_
    exact Graph.find?_uid found ▸ Graph.uid_mem (Graph.find?_mem found)
  | disconnectValue clears =>
    obtain rfl := Graph.disconnectValue_eq_ok clears
    refine formed.update (fun n => n.clearLink_fewer _) fun n _ _ d found conforms => ?_
    exact ⟨d, found, ⟨List.length_set.trans conforms.links, conforms.values, conforms.flows,
      conforms.compact⟩⟩
  | connectFlow connects =>
    obtain ⟨-, -, -, -, m, -, -, -, found, -, -, rfl⟩ := Graph.connectFlow_eq_ok connects
    refine formed.setFlow _ fun target same => ?_
    cases same
    exact Graph.find?_uid found ▸ Graph.uid_mem (Graph.find?_mem found)
  | disconnectFlow clears =>
    obtain rfl := Graph.disconnectFlow_eq_ok clears
    exact formed.setFlow _ fun target same => by cases same
  | renameVariable renames =>
    obtain ⟨-, -, -, -, -, -, rfl⟩ := Graph.renameVariable_eq_ok renames
    exact formed.setLiteral _ _
  | setValue sets =>
    obtain ⟨n, d, -, -, ⟨-, stores⟩ | ⟨name, given, renames⟩⟩ := Graph.setValue_eq_ok sets
    · obtain ⟨-, -, -, rfl⟩ := Graph.storeValue_eq_ok stores
      exact formed.setLiteral _ _
    · obtain ⟨-, -, -, -, -, -, rfl⟩ := Graph.renameVariable_eq_ok renames
      exact formed.setLiteral _ _
  | setOverload switches =>
    obtain ⟨n, d, -, -, offered, -, rfl⟩ := Graph.setOverload_eq_ok switches
    exact formed.switched (distinct.find?_of_mem (Catalog.mem_overloads offered))
  | repair => exact Graph.repaired_wellFormed c formed.distinct
  | paste holds => exact sound.paste _ _

/-! ## Histories -/

namespace Session

/-- A session that is created without nodes or opened for an asset with distinct uids begins with a
well-formed graph, and with identities new to it. -/
theorem Begun.sound (distinct : c.Distinct) {s : Session}
    (begun : s.Begun c fun asset => asset.graph.uids.Nodup) :
    s.catalog = c ∧ Sound c s.graph s.supply :=
  begun.induct (Sound c)
    (fun _ _ fresh => ⟨⟨List.nodup_nil, fun _ hn => absurd hn List.not_mem_nil,
      fun _ hn => absurd hn List.not_mem_nil, fun _ hn => absurd hn List.not_mem_nil⟩, fresh⟩)
    (fun _ _ distinct fresh => ⟨Graph.repaired_wellFormed c distinct,
      fresh.of_subset fun _ => Graph.mem_uids_of_repaired⟩)
    (fun change => change.sound distinct)

theorem Begun.after_sound (distinct : c.Distinct) {s : Session}
    (begun : s.Begun c fun asset => asset.graph.uids.Nodup) (actions : List Action) :
    (s.after actions).catalog = c ∧ Sound c (s.after actions).graph (s.after actions).supply := by
  obtain ⟨rfl, sound⟩ := begun.sound distinct
  exact after_induct (Sound s.catalog) s (fun _ _ _ _ _ _ change => change.sound distinct) sound

/-- Whatever is done to a session, and however it fails, its graph is well-formed afterwards. -/
theorem after_wellFormed (distinct : c.Distinct) {s : Session}
    (begun : s.Begun c fun asset => asset.graph.uids.Nodup) (actions : List Action) :
    (s.after actions).graph.WellFormed c := by
  obtain ⟨rfl, sound⟩ := begun.sound distinct
  exact (after_induct (Sound s.catalog) s
    (fun _ _ _ _ _ _ change => change.sound distinct) sound).2.formed

theorem after_wellFormed_tangled : ∃ s, ofAsset Catalog.intrinsic ⟨Compilation.tangled, .empty⟩
      .default .strokes = .ok s ∧
    (s.after [.addNode Kind.setReturnValueName .origin, .removeNode "loop", .reload]).graph.WellFormed
      Catalog.intrinsic := by
  have opens : (ofAsset Catalog.intrinsic ⟨Compilation.tangled, .empty⟩ .default .strokes).isOk := by
    decide +kernel
  obtain ⟨s, opens⟩ := exists_eq_ok opens
  have apart : Compilation.tangled.uids.Nodup := by decide
  exact ⟨s, opens, after_wellFormed Catalog.intrinsic_distinct
    (.opened apart (Supply.strokes_fresh (by decide)) opens) _⟩

end Session

end ScriptGraph
