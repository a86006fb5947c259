import ScriptGraph.Proofs.Graph.Valid
import ScriptGraph.Proofs.Session.WellFormed

/-!
Connections and literals stay valid. Edits check what they connect and store, so it takes an overload
without flow input or a clipping that is not valid itself to make a graph invalid.
-/

set_option autoImplicit false
set_option relaxedAutoImplicit false

namespace ScriptGraph

variable {c : Catalog} {a : Action} {g h : Graph} {p q : Supply} {uid : Uid} {d : Definition}
  {n m : Node}

/-- Defaults fit their inputs, and the inputs that a session fills in itself take what it stores there:
texts for the name and the way of sharing of a variable and for the variable that a node is bound to, a
truth value for whether a variable is public. -/
structure Catalog.Fitting (c : Catalog) : Prop where
  defaults : ∀ name d, c.find? name = some d → d.Defaults
  names : ∀ name d, c.find? name = some d → d.kind = .variable →
    ∀ text, (Value.text text).fits (d.inputType nameInput)
  flags : ∀ name d, c.find? name = some d → d.kind = .variable →
    ∀ flag, (Value.bool flag).fits (d.inputType publicInput)
  modes : ∀ name d, c.find? name = some d → d.kind = .variable →
    ∀ text, (Value.text text).fits (d.inputType syncModeInput)
  targets : ∀ name d, c.find? name = some d → d.kind.access?.isSome →
    ∀ text, (Value.text text).fits (d.inputType 0)

private theorem intrinsic_inputs : ∀ d ∈ Catalog.intrinsic.definitions, d.Defaults ∧
    (d.kind = .variable → d.inputType nameInput = some textType ∧
      d.inputType publicInput = some boolType ∧ d.inputType syncModeInput = some textType) ∧
    (d.kind.access?.isSome → d.inputType 0 = some textType) := fun _ listed =>
  Catalog.forall_intrinsics (P := fun kind d => d.Defaults ∧
    (kind = .variable → d.inputType nameInput = some textType ∧
      d.inputType publicInput = some boolType ∧ d.inputType syncModeInput = some textType) ∧
    (kind.access?.isSome → d.inputType 0 = some textType))
    (by unfold Definition.Defaults; decide +kernel) (Catalog.mem_intrinsics listed)

theorem Catalog.intrinsic_fitting : Catalog.intrinsic.Fitting := by
  have all := intrinsic_inputs
  have known : ∀ {name d}, Catalog.intrinsic.find? name = some d → d ∈ Catalog.intrinsic.definitions :=
    Catalog.mem_of_find?
  refine ⟨fun name d found => (all d (known found)).1, fun name d found kind text => ?_,
    fun name d found kind flag => ?_, fun name d found kind text => ?_,
    fun name d found use text => ?_⟩
  · rw [((all d (known found)).2.1 kind).1]
    exact Node.text_fits text
  · rw [((all d (known found)).2.1 kind).2.1]
    simp [Value.fits, Value.typeName?]
  · rw [((all d (known found)).2.1 kind).2.2]
    exact Node.text_fits text
  · rw [(all d (known found)).2.2 use]
    exact Node.text_fits text

/-- The definition of what stands for a node of a clipping in a graph: of the variable that is reused
for it, or its own. A node without definition is left out. -/
def Plan.standing? (c : Catalog) (g : Graph) (n : Node) : Option Definition :=
  (c.find? n.fullName).bind fun d =>
    match reused? g n with
    | some uid => g.definition? c uid
    | none => some d

/-- The connections among the nodes of a clipping and their literals are valid where it is pasted. -/
structure Clipping.Valid (c : Catalog) (g : Graph) (k : Clipping) : Prop where
  outputs : ∀ n ∈ k.nodes, ∀ link, some link ∈ n.links → ∀ m ∈ k.nodes, m.uid = link.node →
    ∀ d, Plan.standing? c g m = some d → link.output < d.outputs.length
  apart : ∀ n ∈ k.nodes, ∀ link, some link ∈ n.links → link.node ≠ n.uid
  inputs : ∀ n ∈ k.nodes, ∀ target, some target ∈ n.flows → ∀ m ∈ k.nodes, m.uid = target →
    ∀ d, c.find? m.fullName = some d → d.hasFlowInput
  literals : ∀ n ∈ k.nodes, ∀ d, c.find? n.fullName = some d → Node.Fit d n.values

theorem Clipping.chain_valid (g : Graph) : chain.Valid Catalog.intrinsic g := by
  have unlinked : ∀ n ∈ chain.nodes, n.links = [] ∧ n.values = [] := by decide
  have leads : ∀ n ∈ chain.nodes, ∀ m ∈ chain.nodes, some m.uid ∈ n.flows →
      (Catalog.intrinsic.find? m.fullName).all Definition.hasFlowInput := by
    rw [Catalog.intrinsic_eq]
    decide +kernel
  refine ⟨fun n hn link listed => ?_, fun n hn link listed => ?_,
    fun n hn target listed m hm same d known => ?_, fun n hn d known => ?_⟩
  · simp [unlinked n hn] at listed
  · simp [unlinked n hn] at listed
  · have all := leads n hn m hm (same ▸ listed)
    rw [known] at all
    exact all
  · rw [(unlinked n hn).2]
    exact Node.Fit.nil

/-- An action pastes only what is valid there, and switches no node that flows lead to into one without
flow input. -/
def Graph.Admits (c : Catalog) (g : Graph) : Action → Prop
  | .paste text _ => ∀ k, Clipping.ofText text = .ok k → k.Valid c g
  | .setOverload uid fullName =>
    (∀ d, c.find? fullName = some d → d.hasFlowInput) ∨ ∀ u, ¬g.Leads u uid
  | _ => True

/-! ## Pasting -/

namespace Plan

variable {anchor : Position}

theorem Drafts.fit (drafts : Drafts c anchor n m) (fitting : c.Fitting)
    (fit : ∀ d, c.find? n.fullName = some d → Node.Fit d n.values) :
    ∀ d, c.find? m.fullName = some d → Node.Fit d m.values := by
  obtain ⟨d, names, found, same⟩ := drafts
  intro e known
  have name : m.fullName = n.fullName := by
    rw [same]
    change (adapted names anchor n).1.fullName = _
    unfold adapted
    split <;> rfl
  obtain rfl : d = e := Option.some.inj (found.symm.trans (name ▸ known))
  rw [same]
  refine Node.Fit.conform ?_ (fitting.defaults _ d found)
  unfold adapted
  split
  · rename_i declares
    have kind : d.kind = .variable := (Catalog.find?_kind found).trans (of_decide_eq_true declares)
    exact (fit d found).set (fitting.names _ d found kind _)
  · exact fit d found

theorem retarget_fit {uids : List (Uid × Uid)} (fit : Node.Fit d n.values) :
    Node.Fit d (retarget uids n).values := by
  unfold retarget
  split
  · split
    · rename_i target rest values
      rw [values] at fit
      have fits : (Value.text ((uids.lookup target).getD target)).fits (d.inputType 0) :=
        fit 0 (.text target) rfl
      exact fit.set fits
    · exact fit
  · exact fit

end Plan

section Additions

variable {anchor : Position} {clipping : Clipping} {plan : Plan}
  (sketches : Plan.Sketches c g anchor p clipping.nodes plan) (sound : Sound c g p)
  (distinct : ({ g with nodes := g.nodes ++ plan.additions g } : Graph).uids.Nodup)
include sketches sound distinct

private theorem definition?_drafted (listed : m ∈ plan.nodes) (drafts : Plan.Drafts c anchor n m)
    (added : m.uid ∈ plan.added g) : ∃ d, c.find? n.fullName = some d ∧
      ({ g with nodes := g.nodes ++ plan.additions g } : Graph).definition? c m.uid = some d := by
  have apart : (plan.nodes.map Node.uid).Nodup := sketches.uids ▸ sound.fresh.upcoming_nodup _
  obtain ⟨d, known, name, -⟩ := drafts.conforms
  obtain ⟨k, hk, same⟩ := List.mem_map.mp added
  obtain ⟨other, hother, rfl⟩ := Plan.mem_additions hk
  rw [Plan.brought_uid] at same
  obtain rfl := List.inj_on_of_nodup_map apart hother listed same
  have there := Graph.definition?_of_mem distinct (List.mem_append_right _ hk)
    (Plan.brought_fullName ▸ known)
  rw [Plan.brought_uid] at there
  exact ⟨d, name ▸ known, there⟩

private theorem additions_outputs (brings : clipping.Valid c g) (listed : m ∈ plan.additions g)
    {link : Link} (linked : some link ∈ m.links) :
    ∃ d, ({ g with nodes := g.nodes ++ plan.additions g } : Graph).definition? c link.node =
      some d ∧ link.output < d.outputs.length := by
  obtain ⟨k, hk, rfl⟩ := Plan.mem_additions listed
  obtain ⟨there, source, hsource, found, output⟩ := Plan.mem_links_brought linked
  obtain ⟨n, hn, drafts, -⟩ := sketches.drafts k hk
  obtain ⟨n', hn', same, own, stands⟩ := sketches.stands _ _ (mem_of_lookup_eq_some found)
  obtain ⟨o, own⟩ := Option.isSome_iff_exists.mp own
  have inside := brings.outputs n hn source (drafts.links hsource) n' hn' same
  rw [output]
  rcases stands with reuses | ⟨m, hm, uid, new, drafts'⟩
  · obtain ⟨-, w, hw, uid, -⟩ := Plan.reused?_eq_some reuses
    obtain ⟨e, known, -⟩ := sound.formed.conforms w hw
    have defined := uid ▸ Graph.definition?_of_mem sound.formed.distinct hw known
    have stands : Plan.standing? c g n' = some e := by
      rw [Plan.standing?, own, Option.bind_some, reuses]
      exact defined
    exact ⟨e, Graph.definition?_append defined, inside e stands⟩
  · have unused : m.uid ∉ g.uids :=
      sound.fresh.upcoming_unused (sketches.uids ▸ List.mem_map_of_mem hm)
    rw [← uid] at there ⊢
    obtain ⟨d, known, defined⟩ :=
      definition?_drafted sketches sound distinct hm drafts' (there.resolve_right unused)
    have stands : Plan.standing? c g n' = some d := by
      rw [Plan.standing?, known, Option.bind_some, new]
    exact ⟨d, defined, inside d stands⟩

private theorem additions_inputs (brings : clipping.Valid c g) (listed : m ∈ plan.additions g)
    {target : Uid} (leads : some target ∈ m.flows) :
    ∃ d, ({ g with nodes := g.nodes ++ plan.additions g } : Graph).definition? c target =
      some d ∧ d.hasFlowInput := by
  obtain ⟨k, hk, rfl⟩ := Plan.mem_additions listed
  obtain ⟨there, source, hsource, found⟩ := Plan.mem_flows_brought leads
  obtain ⟨n, hn, drafts, -⟩ := sketches.drafts k hk
  obtain ⟨n', hn', same, -, reuses | ⟨m, hm, rfl, -, drafts'⟩⟩ :=
    sketches.stands _ _ (mem_of_lookup_eq_some found)
  · obtain ⟨-, w, hw, rfl, -⟩ := Plan.reused?_eq_some reuses
    have added := (plan.added_sublist g).subset there
    exact absurd (Graph.uid_mem hw) (sound.fresh.upcoming_unused (sketches.uids ▸ added))
  · obtain ⟨d, known, defined⟩ :=
      definition?_drafted sketches sound distinct hm drafts' there
    exact ⟨d, defined, brings.inputs n hn source (drafts.flows hsource) n' hn' same d known⟩

end Additions

theorem Sound.paste_valid (sound : Sound c g p) (fitting : c.Fitting) (valid : g.Valid c)
    (anchor : Position) {clipping : Clipping} (brings : clipping.Valid c g) :
    (g.extended c ((Plan.ofClipping c g anchor p clipping).additions g)).Valid c := by
  have distinct := (sound.paste anchor clipping).distinct
  have sketches := Plan.ofClipping_sketches c g anchor p clipping
  generalize Plan.ofClipping c g anchor p clipping = plan at sketches distinct
  unfold Graph.extended at distinct ⊢
  rw [Graph.uids_foldl_relayout] at distinct
  refine Graph.Valid.foldl_relayout (valid.append ?_ ?_ ?_ ?_) _
  · exact fun m listed link => additions_outputs sketches sound distinct brings listed
  · intro m listed link linked same
    obtain ⟨k, hk, rfl⟩ := Plan.mem_additions listed
    obtain ⟨-, source, hsource, found, -⟩ := Plan.mem_links_brought linked
    obtain ⟨n, hn, drafts, pair⟩ := sketches.drafts k hk
    rw [Plan.brought_uid] at same
    refine brings.apart n hn source (drafts.links hsource) ?_
    exact sketches.single sound.fresh _ _ _ (same ▸ mem_of_lookup_eq_some found) pair
      (List.mem_map_of_mem hk)
  · exact fun m listed target => additions_inputs sketches sound distinct brings listed
  · intro m listed d known
    obtain ⟨k, hk, rfl⟩ := Plan.mem_additions listed
    obtain ⟨n, hn, drafts, -⟩ := sketches.drafts k hk
    rw [Plan.brought_fullName] at known
    exact Plan.retarget_fit (drafts.fit fitting (brings.literals n hn) d known)

/-! ## Single changes -/

private theorem access?_fullName (use : Access) : (Kind.ofName use.fullName).access?.isSome := by
  cases use <;> decide

theorem declaration_fit (defaults : d.Defaults)
    (names : ∀ text, (Value.text text).fits (d.inputType nameInput))
    (flags : ∀ flag, (Value.bool flag).fits (d.inputType publicInput)) (name : String)
    (isPublic : Bool) (uid : Uid) :
    Node.Fit d (Session.declaration d name isPublic uid).values :=
  ((Node.fresh_fit defaults uid).set (names name)).set (flags isPublic)

private theorem renameVariable_valid (sound : Sound c g p) (fitting : c.Fitting) (valid : g.Valid c)
    {name given : String} (renames : g.renameVariable uid name = .ok (given, some h)) :
    h.Valid c := by
  obtain ⟨n, current, found, named, -, -, rfl⟩ := Graph.renameVariable_eq_ok renames
  refine valid.setLiteral fun m listed here d known => ?_
  obtain rfl := Graph.eq_of_find? sound.formed.distinct found listed here
  refine fitting.names _ d known ((Catalog.find?_kind known).trans ?_) given
  rw [Node.variableName?] at named
  split at named
  · rename_i declares
    exact of_decide_eq_true declares
  · cases named

private theorem storeValue_valid (sound : Sound c g p) (fitting : c.Fitting) (valid : g.Valid c)
    (found : g.find? uid = some n) (known : c.find? n.fullName = some d) {index : Nat}
    {value : Value} (stores : g.storeValue n d index value = .ok h) : h.Valid c := by
  obtain ⟨stored, storable, -, rfl⟩ := Graph.storeValue_eq_ok stores
  refine valid.setLiteral fun m listed here e known' => ?_
  obtain rfl := Graph.eq_of_find? sound.formed.distinct found listed (here.trans (Graph.find?_uid found))
  obtain rfl : d = e := Option.some.inj (known.symm.trans known')
  rcases Graph.storable_eq_ok storable with ⟨declares, rfl, text, rfl⟩ | ⟨rfl, fits⟩
  · exact fitting.modes _ d known ((Catalog.find?_kind known).trans (of_decide_eq_true declares)) text
  · exact fits

theorem Change.valid (distinct : c.Distinct) (fitting : c.Fitting)
    (change : Change c a (g, p) (h, q)) (sound : Sound c g p) (valid : g.Valid c)
    (admits : g.Admits c a) : h.Valid c := by
  cases change with
  | draw => exact valid
  | rename name => exact ⟨valid.outputs, valid.apart, valid.inputs, valid.literals⟩
  | reorder order => exact ⟨valid.outputs, valid.apart, valid.inputs, valid.literals⟩
  | move uid position =>
    exact valid.update (fun _ => ⟨rfl, fun _ => id, fun _ => id⟩) fun _ => ⟨rfl, rfl⟩
  | @declare _ _ _ d found declares room name free isPublic =>
    refine valid.push (fun _ => Node.fresh_links) (fun _ => Node.fresh_flows) fun e known => ?_
    obtain rfl : d = e := Option.some.inj (found.symm.trans known)
    exact declaration_fit (fitting.defaults _ d found) (fitting.names _ d found declares)
      (fitting.flags _ d found declares) _ isPublic _
  | @add _ _ _ d found other single position =>
    refine valid.push (fun _ => Node.fresh_links) (fun _ => Node.fresh_flows) fun e known => ?_
    obtain rfl : d = e := Option.some.inj (found.symm.trans known)
    exact Node.fresh_fit (fitting.defaults _ d found) _
  | @access _ _ _ use variableUid d found declared single position =>
    refine valid.push (fun _ => Node.fresh_links) (fun _ => Node.fresh_flows) fun e known => ?_
    have same : c.find? d.fullName = some d := (Catalog.find?_fullName found).symm ▸ found
    obtain rfl : d = e := Option.some.inj (same.symm.trans known)
    have bound : d.kind.access?.isSome := Catalog.find?_kind found ▸ access?_fullName use
    exact (Node.fresh_fit (fitting.defaults _ d found) _).set
      (fitting.targets _ d found bound variableUid)
  | @bind _ _ _ uid target n d name type found defined needs =>
    refine valid.setLiteral fun m listed here e known => ?_
    obtain rfl := Graph.eq_of_find? sound.formed.distinct found listed here
    have name : m.fullName = Kind.setReturnValueName :=
      Manner.fullName_of_internalVariable? (by rw [needs]; rfl)
    have bound : e.kind.access?.isSome := by
      rw [Catalog.find?_kind known, name]
      rfl
    exact fitting.targets _ e known bound target
  | removeNode removes =>
    obtain ⟨n, -, rfl, rfl⟩ := Graph.removeNode_eq_ok removes
    exact (valid.foldl_extract sound.formed.distinct _).relayoutBlocks
  | connectValue connects =>
    obtain ⟨apart, n, d, -, -, found, known, -, -, inside, rfl⟩ := Graph.connectValue_eq_ok connects
    refine valid.setLink ?_ inside apart
    rw [Graph.definition?, found]
    exact known
  | disconnectValue clears =>
    obtain rfl := Graph.disconnectValue_eq_ok clears
    exact valid.update (fun n => n.clearLink_fewer _) fun _ => ⟨rfl, rfl⟩
  | connectFlow connects =>
    obtain ⟨-, -, -, -, m, e, -, -, found, known, input, rfl⟩ := Graph.connectFlow_eq_ok connects
    refine (valid.setFlow ?_ input).relayout
    rw [Graph.definition?, found]
    exact known
  | disconnectFlow clears =>
    obtain rfl := Graph.disconnectFlow_eq_ok clears
    exact (valid.update (fun n => n.clearFlow_fewer _) fun _ => ⟨rfl, rfl⟩).relayout
  | renameVariable renames => exact renameVariable_valid sound fitting valid renames
  | setValue sets =>
    obtain ⟨n, d, found, known, ⟨-, stores⟩ | ⟨name, given, renames⟩⟩ := Graph.setValue_eq_ok sets
    · exact storeValue_valid sound fitting valid found known stores
    · exact renameVariable_valid sound fitting valid renames
  | setOverload switches =>
    obtain ⟨n, d, -, -, offered, rfl, rfl⟩ := Graph.setOverload_eq_ok switches
    have known := distinct.find?_of_mem (Catalog.mem_overloads offered)
    exact valid.switched known (admits.imp_left fun input => input d known)
  | repair => exact Graph.repaired_valid c sound.formed.distinct
  | paste holds => exact sound.paste_valid fitting valid _ (admits _ holds)

/-! ## Histories -/

namespace Session

/-- Each action of a history is admitted in the state that it meets. -/
def Admits : Session → List Action → Prop
  | _, [] => True
  | s, action :: rest => s.graph.Admits s.catalog action ∧ Admits (s.perform action).2 rest

private theorem perform_valid {s : Session} (distinct : s.catalog.Distinct)
    (fitting : s.catalog.Fitting) (sound : Sound s.catalog s.graph s.supply)
    (valid : s.graph.Valid s.catalog) {action : Action} (admits : s.graph.Admits s.catalog action) :
    (s.perform action).2.graph.Valid s.catalog := by
  refine (s.perform_induct (fun g p => Sound s.catalog g p ∧ g.Valid s.catalog) action ?_ ?_
    ⟨sound, valid⟩).2
  · intro switches pastes g h p q change ⟨sound, valid⟩
    refine ⟨change.sound distinct sound, change.valid distinct fitting sound valid ?_⟩
    -- Only for a switch and a paste it matters in which state they are made.
    cases action <;>
      first | trivial | exact absurd rfl (switches _ _) | exact absurd rfl (pastes _ _)
  · intro h q change ⟨sound, valid⟩
    exact ⟨change.sound distinct sound, change.valid distinct fitting sound valid admits⟩

theorem after_valid {s : Session} (distinct : s.catalog.Distinct) (fitting : s.catalog.Fitting)
    (sound : Sound s.catalog s.graph s.supply) (valid : s.graph.Valid s.catalog)
    {actions : List Action} (admits : s.Admits actions) :
    (s.after actions).graph.Valid s.catalog := by
  induction actions generalizing s with
  | nil => exact valid
  | cons action actions ih =>
    obtain ⟨catalog, changes⟩ := s.perform_makes action
    have rest := @ih (s.perform action).2
    rw [catalog] at rest
    exact rest distinct fitting
      (changes_induct (Sound s.catalog) (fun change => change.sound distinct) changes sound)
      (perform_valid distinct fitting sound valid admits.1) admits.2

/-- In every history of a session started empty, connections and literals stay valid, if each action is
admitted in the state that it meets. -/
theorem after_create_valid (distinct : c.Distinct) (fitting : c.Fitting) (settings : Settings)
    {supply : Supply} (fresh : supply.Fresh []) {actions : List Action}
    (admits : (create c settings supply).Admits actions) :
    ((create c settings supply).after actions).graph.Valid c := by
  have sound := (Begun.sound distinct (.created settings fresh)).2
  have empty : ∀ n : Node, n ∉ (create c settings supply).graph.nodes := fun _ => List.not_mem_nil
  have valid : (create c settings supply).graph.Valid c :=
    ⟨fun _ _ ⟨n, hn, _⟩ => absurd hn (empty n), fun _ _ ⟨n, hn, _⟩ => absurd hn (empty n),
      fun _ _ ⟨n, hn, _⟩ => absurd hn (empty n), fun n hn => absurd hn (empty n)⟩
  exact after_valid distinct fitting sound valid admits

/-- Blocks, one of them leading to the other, and a variable whose type is changed. -/
theorem after_create_valid_chain : ((create Catalog.intrinsic .default .strokes).after
    [.paste Clipping.chainText .origin, .addVariable int32Type "count" true,
      .setOverload "||||" (Kind.variablePrefix ++ textType)]).graph.Valid Catalog.intrinsic := by
  refine after_create_valid Catalog.intrinsic_distinct Catalog.intrinsic_fitting .default
    (Supply.strokes_fresh (by simp)) ⟨?_, trivial, ?_, trivial⟩
  · rw [create_catalog]
    intro k holds
    obtain rfl : Clipping.chain = k := Except.ok.inj (Clipping.ofText_chainText.symm.trans holds)
    exact Clipping.chain_valid _
  · -- No flow leads to a declaration.
    refine Or.inr fun u ⟨n, hn, _, listed⟩ => ?_
    have none : ∀ n ∈ (((create Catalog.intrinsic .default .strokes).perform
        (.paste Clipping.chainText .origin)).2.perform
          (.addVariable int32Type "count" true)).2.graph.nodes, some "||||" ∉ n.flows := by
      decide +kernel
    exact none n hn listed

/-! ## Histories that are not admitted -/

/-- A branch that reads an output of its own that it does not have, as a text. -/
def selfText : String :=
  "AUAAv/97Im5vZGVzIjpbeyJ1aWQiOiJhIiwiZnVsbF9uYW1lIjoiQnJhbmNoIiwibm9kZV91aWRzIjpbImF8NyJdfV19"

/-- Two overloads, of which only the first has a flow input. -/
def halfFlow : Catalog := (Catalog.empty.extend
  [(Definition.bare "Event_Start").withFlow [""], (Definition.bare "Host.__Run__Now").withFlow [""],
    Definition.bare "Host.__Run__Later"]).1

def numberNamed : Catalog := (Catalog.empty.extend
  [{ Definition.bare (Kind.variablePrefix ++ "Odd") with
      inputs := [⟨"value", none, .null⟩, ⟨"name", some int32Type, .null⟩,
        ⟨"isPublic", some boolType, .null⟩] }]).1

theorem invalid_histories :
    ((∀ d ∈ Catalog.intrinsic.definitions, d.Defaults) ∧
      ¬((create Catalog.intrinsic .default .strokes).after
        [.paste selfText .origin]).graph.Valid Catalog.intrinsic) ∧
    ((∀ d ∈ halfFlow.definitions, d.Defaults) ∧ ¬((create halfFlow .default .strokes).after
      [.addNode "Event_Start" .origin, .addNode "Host.__Run__Now" .origin,
        .connectFlow "||" 0 "|||", .setOverload "|||" "Host.__Run__Later"]).graph.Valid halfFlow) ∧
    ((∀ d ∈ numberNamed.definitions, d.Defaults) ∧ ¬((create numberNamed .default .strokes).after
      [.addVariable "Odd" "name" false]).graph.Valid numberNamed) := by
  refine ⟨⟨fun d listed => (intrinsic_inputs d listed).1, fun valid => ?_⟩, ⟨?_, fun valid => ?_⟩, ?_,
    fun valid => ?_⟩
  · have linked : ((create Catalog.intrinsic .default .strokes).after
        [.paste selfText .origin]).graph.Linked "||" ⟨"||", 7⟩ := by
      unfold Graph.Linked
      decide +kernel
    exact valid.apart _ _ linked rfl
  · unfold Definition.Defaults
    decide +kernel
  · obtain ⟨d, defined, input⟩ := valid.inputs "||" "|||" (by unfold Graph.Leads; decide +kernel)
    have later : (((create halfFlow .default .strokes).after
        [.addNode "Event_Start" .origin, .addNode "Host.__Run__Now" .origin,
          .connectFlow "||" 0 "|||", .setOverload "|||" "Host.__Run__Later"]).graph.definition?
            halfFlow "|||").any Definition.hasFlowInput = false := by decide +kernel
    rw [defined] at later
    exact absurd input (by simpa using later)
  · unfold Definition.Defaults
    decide +kernel
  · have stray : ∃ n ∈ ((create numberNamed .default .strokes).after
        [.addVariable "Odd" "name" false]).graph.nodes, ∃ d ∈ numberNamed.find? n.fullName,
          ∃ value ∈ n.values[nameInput]?, value.fits (d.inputType nameInput) = false := by
      decide +kernel
    obtain ⟨n, hn, d, known, value, found, misfits⟩ := stray
    have fits := valid.literals n hn d known nameInput value found
    rw [misfits] at fits
    cases fits

end Session

end ScriptGraph
